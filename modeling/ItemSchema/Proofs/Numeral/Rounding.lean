import ItemSchema.Proofs.Numeral.Decimal
import Mathlib.Algebra.Order.Floor.Semiring
import Mathlib.Data.Rat.Floor

/-! Rounding half away from zero: what becomes of digits that have no place in a decimal. A number
is kept with as many of its places as fit. -/
namespace ItemSchema.Decimal

theorem le_roundOff_iff {n count r : Nat} :
    r ≤ roundOff n count ↔ 2 * 10 ^ count * r ≤ 2 * n + 10 ^ count := by
  rw [roundOff, Nat.pow_eq, Nat.le_div_iff_mul_le (by positivity), Nat.mul_comm]

theorem roundOff_eq_iff {n count r : Nat} : roundOff n count = r ↔
    2 * 10 ^ count * r ≤ 2 * n + 10 ^ count ∧ 2 * n + 10 ^ count < 2 * 10 ^ count * (r + 1) := by
  rw [← le_roundOff_iff, ← Nat.not_le, ← le_roundOff_iff]
  omega

theorem roundOff_zero (n : Nat) : roundOff n 0 = n := by
  rw [roundOff_eq_iff]
  omega

/-- The more digits are taken off, the less is left. -/
theorem roundOff_antitone {n few many : Nat} (fewer : few ≤ many) :
    roundOff n many ≤ roundOff n few := by
  have power : 10 ^ few ≤ 10 ^ many := Nat.pow_le_pow_right (by decide) fewer
  have bound : 2 * 10 ^ many * roundOff n many ≤ 2 * n + 10 ^ many := le_roundOff_iff.mp le_rfl
  rw [le_roundOff_iff]
  generalize roundOff n many = r at bound ⊢
  cases r with
  | zero => omega
  | succ r =>
    have shorter := Nat.mul_le_mul_right (2 * r + 1) power
    linarith

/-- The digits of a number that are kept, and how many of them stand behind the point: as many as
have a place. -/
structure Rounds (n places magnitude scale : Nat) : Prop where
  scale_le : scale ≤ min places 28
  rounded : roundOff n (places - scale) = magnitude
  fits : magnitude < 2 ^ 96
  most : scale = min places 28 ∨ 2 ^ 96 ≤ roundOff n (places - (scale + 1))

theorem isTail_of_isDigit {row : List Char} (all : ∀ c ∈ row, c.isDigit = true) :
    isTail row = true := by
  simp only [isTail, List.all_eq_true, Bool.or_eq_true]
  exact fun c member => .inl (all c member)

/-- What is read of digits, if their number counts `n` units of the last of its places. -/
inductive Reads (n places : Nat) : Option (Nat × Nat) → Prop where
  | rounds {kept scale : Nat} (rounds : Rounds n places kept scale) :
      Reads n places (some (kept, scale))
  | exceeds (large : 2 ^ 96 ≤ roundOff n places) : Reads n places none

section

variable {magnitude digit tail count : Nat}

/-- The first digit that goes decides alone, as those behind it are less than one of it. -/
theorem roundOff_down (small : digit < 5) (behind : tail < 10 ^ count) :
    roundOff ((magnitude * 10 + digit) * 10 ^ count + tail) (count + 1) = magnitude := by
  have below := Nat.mul_le_mul_left (10 ^ count) (Nat.le_of_lt_succ small)
  have least := Nat.zero_le (10 ^ count * digit)
  rw [roundOff_eq_iff, pow_succ]
  constructor <;> linarith

theorem roundOff_up (large : 5 ≤ digit) (small : digit < 10) (behind : tail < 10 ^ count) :
    roundOff ((magnitude * 10 + digit) * 10 ^ count + tail) (count + 1) = magnitude + 1 := by
  have above := Nat.mul_le_mul_left (10 ^ count) large
  have below := Nat.mul_le_mul_left (10 ^ count) (Nat.le_of_lt_succ small)
  rw [roundOff_eq_iff, pow_succ]
  constructor <;> linarith

/-- If all 96 bits are set, then the digit that goes last may be taken off after the rounding. -/
theorem roundOff_twice (large : 5 ≤ digit) (small : digit < 10) (behind : tail < 10 ^ count)
    (limit : magnitude + 1 = 2 ^ 96) :
    roundOff ((magnitude * 10 + digit) * 10 ^ count + tail) (count + 2) =
      roundOff (magnitude + 1) 1 := by
  have above := Nat.mul_le_mul_left (10 ^ count) large
  have below := Nat.mul_le_mul_left (10 ^ count) (Nat.le_of_lt_succ small)
  have bits : 10 ^ count * magnitude + 10 ^ count = 10 ^ count * 2 ^ 96 := by
    rw [← limit]
    ring
  rw [limit, show roundOff (2 ^ 96) 1 = 7922816251426433759354395034 by decide, roundOff_eq_iff,
    show 10 ^ (count + 2) = 100 * 10 ^ count by ring]
  constructor <;> linarith

theorem reads_roundBy {scale : Nat} (fits : magnitude < 2 ^ 96) (room : scale ≤ 28)
    (small : digit < 10) (behind : tail < 10 ^ count)
    (full : scale = 28 ∨ 2 ^ 96 ≤ magnitude * 10 + digit) :
    Reads ((magnitude * 10 + digit) * 10 ^ count + tail) (scale + (count + 1))
      (roundBy magnitude scale digit) := by
  have most : scale = min (scale + (count + 1)) 28 ∨ 2 ^ 96 ≤
      roundOff ((magnitude * 10 + digit) * 10 ^ count + tail)
        (scale + (count + 1) - (scale + 1)) := by
    apply full.imp
    · omega
    · intro more
      apply more.trans
      rw [le_roundOff_iff, show scale + (count + 1) - (scale + 1) = count by omega]
      linarith
  have cut : scale + (count + 1) - scale = count + 1 := by omega
  rw [roundBy]
  split
  · rename_i down
    refine .rounds ⟨by omega, ?_, fits, most⟩
    rw [cut, roundOff_down down behind]
  · rename_i notDown
    have up : roundOff ((magnitude * 10 + digit) * 10 ^ count + tail) (count + 1) =
        magnitude + 1 := roundOff_up (not_lt.mp notDown) small behind
    split
    · rename_i next
      refine .rounds ⟨by omega, ?_, next, most⟩
      rw [cut, up]
    · rename_i last
      have limit : magnitude + 1 = 2 ^ 96 := by
        rw [Nat.pow_eq] at last
        omega
      split
      · rename_i none
        subst none
        apply Reads.exceeds
        rw [Nat.zero_add, up, limit]
      · rename_i some
        refine .rounds ⟨by omega, ?_, ?_, .inr ?_⟩
        · rw [show scale + (count + 1) - (scale - 1) = count + 2 by omega,
            roundOff_twice (not_lt.mp notDown) small behind limit]
        · rw [limit]
          decide
        · rw [show scale + (count + 1) - (scale - 1 + 1) = count + 1 by omega, up, limit]

end

/-- Digits behind the point, with those in front of it already counted. -/
theorem reads_fraction {front scale : Nat} {started : Bool} {row : List Char}
    (all : ∀ c ∈ row, c.isDigit = true) (fits : front < 2 ^ 96) (room : scale ≤ 28)
    (nonempty : started = true ∨ row ≠ []) :
    Reads (Nat.ofDigitChars 10 row front) (scale + row.length)
      (magnitudeFrom front scale true started row) := by
  induction row generalizing front scale started with
  | nil =>
    rw [magnitudeFrom, if_pos (by simpa using nonempty), Nat.ofDigitChars_nil]
    refine .rounds ⟨?_, ?_, fits, .inl ?_⟩
    · simpa using room
    · simpa using roundOff_zero front
    · simp [room]
  | cons c rest ih =>
    obtain ⟨digit, others⟩ := List.forall_mem_cons.mp all
    have next : 10 * front + (c.toNat - '0'.toNat) = front * 10 + Numeral.digitValue c := by
      rw [Nat.mul_comm, Numeral.digitValue]
    rw [magnitudeFrom, if_pos digit, Nat.ofDigitChars_cons, next, List.length_cons]
    dsimp only
    split
    · rename_i place
      simp only [Bool.not_true, Bool.false_or, Bool.and_eq_true, decide_eq_true_eq] at place
      have later := ih others place.1 place.2 (.inl rfl : true = true ∨ rest ≠ [])
      rwa [if_pos rfl, Nat.add_comm rest.length, ← Nat.add_assoc]
    · rename_i full
      simp only [Bool.not_true, Bool.false_or, Bool.and_eq_true, decide_eq_true_eq] at full
      rw [isTail_of_isDigit others, Bool.and_true, if_pos rfl,
        Nat.ofDigitChars_eq_ofDigitChars_zero, Nat.mul_comm (10 ^ rest.length)]
      apply reads_roundBy fits room (Numeral.digitValue_lt digit) (Numeral.ofDigitChars_lt rest others)
      rw [Nat.pow_eq] at full
      omega

/-- Without a point nothing is rounded. -/
theorem magnitudeFrom_overflow {front : Nat} {started : Bool} {row : List Char}
    (all : ∀ c ∈ row, c.isDigit = true) (fits : front < 2 ^ 96)
    (large : 2 ^ 96 ≤ Nat.ofDigitChars 10 row front) (rest : List Char) :
    magnitudeFrom front 0 false started (row ++ rest) = none := by
  induction row generalizing front started with
  | nil =>
    rw [Nat.ofDigitChars_nil] at large
    omega
  | cons c row ih =>
    obtain ⟨digit, others⟩ := List.forall_mem_cons.mp all
    have next : 10 * front + (c.toNat - '0'.toNat) = front * 10 + Numeral.digitValue c := by
      rw [Nat.mul_comm, Numeral.digitValue]
    rw [Nat.ofDigitChars_cons, next] at large
    rw [List.cons_append, magnitudeFrom, if_pos digit]
    dsimp only
    split
    · rename_i place
      simp only [Bool.not_false, Bool.true_or, Bool.and_true, decide_eq_true_eq] at place
      exact ih others place large
    · rfl

end ItemSchema.Decimal
