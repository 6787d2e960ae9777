import ItemSchema.Proofs.Numeral.Places

/-! Decimal numbers as they are written: a sign, digits with a point among them, an exponent. What
is read of them, and which are read as the numbers that they denote. -/
namespace ItemSchema

namespace Numeral

inductive Sign where
  | absent
  | plus
  | minus

def Sign.chars : Sign → List Char
  | .absent => []
  | .plus => ['+']
  | .minus => ['-']

def Sign.isNegative : Sign → Bool
  | .minus => true
  | _ => false

/-- Digits with at most one point. They may all stand on one side of it. -/
structure Mantissa where
  sign : Sign
  whole : List Char
  fraction : Option (List Char)
  digital : ∀ c ∈ whole ++ fraction.getD [], c.isDigit = true
  nonempty : whole ++ fraction.getD [] ≠ []

structure Exponent where
  mark : Char
  marked : mark = 'e' ∨ mark = 'E'
  sign : Sign
  row : List Char
  digital : ∀ c ∈ row, c.isDigit = true
  nonempty : row ≠ []

structure Literal where
  mantissa : Mantissa
  exponent : Option Exponent

namespace Mantissa

variable (m : Mantissa)

/-- The digits as one integer. -/
def count : ℕ :=
  Nat.ofDigitChars 10 (m.whole ++ m.fraction.getD []) 0

def places : ℕ :=
  (m.fraction.getD []).length

def value : ℚ :=
  Decimal.ofUnits m.sign.isNegative m.count m.places

def row : List Char :=
  m.whole ++ m.fraction.elim [] ('.' :: ·)

def chars : List Char :=
  m.sign.chars ++ m.row

end Mantissa

namespace Exponent

variable (e : Exponent)

def size : ℕ :=
  Nat.ofDigitChars 10 e.row 0

def power : ℤ :=
  if e.sign.isNegative then -(e.size : ℤ) else e.size

def chars : List Char :=
  e.mark :: (e.sign.chars ++ e.row)

end Exponent

namespace Literal

variable (l : Literal)

def power : ℤ :=
  l.exponent.elim 0 Exponent.power

/-- The number that is denoted. -/
def value : ℚ :=
  l.mantissa.value * 10 ^ l.power

def text : String :=
  String.ofList (l.mantissa.chars ++ l.exponent.elim [] Exponent.chars)

end Literal

end Numeral

theorem Text.cutAt?_append {stop : Char → Bool} {front : List Char} {mark : Char}
    (before : ∀ c ∈ front, stop c = false) (stops : stop mark = true) (rest : List Char) :
    cutAt? stop (front ++ mark :: rest) = some (front, rest) := by
  induction front with
  | nil => rw [List.nil_append, cutAt?, if_pos stops]
  | cons c front ih =>
    obtain ⟨here, later⟩ := List.forall_mem_cons.mp before
    rw [List.cons_append, cutAt?, here, if_neg Bool.false_ne_true, ih later]
    rfl

theorem Text.cutAt?_eq_none {stop : Char → Bool} {text : List Char}
    (without : ∀ c ∈ text, stop c = false) : cutAt? stop text = none := by
  induction text with
  | nil => rfl
  | cons c rest ih =>
    obtain ⟨here, later⟩ := List.forall_mem_cons.mp without
    rw [cutAt?, here, if_neg Bool.false_ne_true, ih later]
    rfl

namespace Numeral

variable {c : Char}

theorem Mantissa.mem_row {m : Mantissa} (member : c ∈ m.row) : c.isDigit = true ∨ c = '.' := by
  rcases List.mem_append.mp member with front | back
  · exact .inl (m.digital c (List.mem_append_left _ front))
  · cases point : m.fraction with
    | none => simp [point] at back
    | some fraction =>
      rw [point, Option.elim, List.mem_cons] at back
      apply back.symm.imp_left
      intro behind
      exact m.digital c (List.mem_append_right _ (by simpa [point] using behind))

theorem Exponent.mark_foreign (e : Exponent) :
    e.mark.isDigit = false ∧ e.mark ≠ '.' ∧ e.mark ≠ '_' := by
  rcases e.marked with mark | mark <;> rw [mark] <;> decide

/-- No exponent starts within a mantissa. -/
theorem Mantissa.chars_unmarked (m : Mantissa) :
    ∀ c ∈ m.chars, (decide (c = 'e') || decide (c = 'E')) = false := by
  intro c member
  rcases List.mem_append.mp member with sign | row
  · cases which : m.sign <;> simp [which, Sign.chars] at sign <;> rw [sign] <;> decide
  · rcases mem_row row with digit | rfl
    · have small : c ≠ 'e' := by rintro rfl; contradiction
      have large : c ≠ 'E' := by rintro rfl; contradiction
      simp [small, large]
    · decide

theorem Exponent.abs_power (e : Exponent) : |e.power| = e.size := by
  rw [power]
  split
  · rw [abs_neg, Nat.abs_cast]
  · rw [Nat.abs_cast]

/-- What an exponent makes of a mantissa that has been read. -/
def Exponent.shift? (e : Exponent) (d : Decimal) : Option Decimal :=
  if e.sign.isNegative then d.shiftDown? e.size else d.shiftUp? e.size

end Numeral

namespace Decimal

open Numeral (Mantissa Exponent Literal Sign)

theorem magnitudeFrom_foreign {foreign : Char} (noDigit : foreign.isDigit = false)
    (noPoint : foreign ≠ '.') (noUnderscore : foreign ≠ '_') {row : List Char}
    (member : foreign ∈ row) (front scale : ℕ) (pointed started : Bool) :
    magnitudeFrom front scale pointed started row = none := by
  have noTail : ∀ {row : List Char}, foreign ∈ row → isTail row = false := by
    intro row member
    rw [isTail, List.all_eq_false]
    exact ⟨foreign, member, by simp [noDigit, noUnderscore]⟩
  induction row generalizing front scale pointed started with
  | nil => contradiction
  | cons c rest ih =>
    rw [magnitudeFrom]
    rcases List.mem_cons.mp member with rfl | behind
    · simp [noDigit, noPoint, noUnderscore]
    · simp [ih behind, noTail behind]

theorem plain?_signed (m : Mantissa) (rest : List Char) :
    plain? (m.chars ++ rest) = signed? m.sign.isNegative (m.row ++ rest) := by
  rw [Mantissa.chars, List.append_assoc]
  cases sign : m.sign with
  | plus | minus => rfl
  | absent =>
    have unsigned : ∀ c, c ∈ m.row → c ≠ '-' ∧ c ≠ '+' := by
      intro c member
      rcases Mantissa.mem_row member with digit | rfl
      · constructor <;> rintro rfl <;> contradiction
      · decide
    have nonempty : m.row ≠ [] := by
      intro none
      rw [Mantissa.row, List.append_eq_nil_iff] at none
      apply m.nonempty
      cases point : m.fraction <;> simp [point] at none ⊢
      exact none
    rw [Sign.chars, List.nil_append]
    cases row : m.row with
    | nil => contradiction
    | cons c others =>
      have first := unsigned c (by rw [row]; exact List.mem_cons_self)
      exact plain?_unsigned first.1 first.2 (others ++ rest)

theorem plain?_exponent (m : Mantissa) (e : Exponent) : plain? (m.chars ++ e.chars) = none := by
  obtain ⟨noDigit, noPoint, noUnderscore⟩ := e.mark_foreign
  have member : e.mark ∈ m.row ++ e.chars := List.mem_append_right _ List.mem_cons_self
  rw [plain?_signed, signed?, magnitude?, magnitudeFrom_foreign noDigit noPoint noUnderscore member]
  rfl

theorem scientific?_exponent (m : Mantissa) (e : Exponent) :
    scientific? (m.chars ++ e.chars) = (plain? m.chars).bind e.shift? := by
  have marks : (decide (e.mark = 'e') || decide (e.mark = 'E')) = true := by simpa using e.marked
  have number := Numeral.unsigned?_of_isDigit e.nonempty e.digital
  rw [scientific?, Exponent.chars, Text.cutAt?_append m.chars_unmarked marks]
  change (plain? m.chars).bind _ = _
  congr 1
  funext d
  rw [Exponent.shift?, Exponent.size]
  cases e.sign with
  | minus => simp [Sign.chars, Sign.isNegative, number]
  | plus =>
    have plus : Numeral.unsigned? ('+' :: e.row) = some (Nat.ofDigitChars 10 e.row 0) :=
      Numeral.natural?_of_isDigit e.nonempty e.digital
    simp [Sign.chars, Sign.isNegative, plus]
  | absent =>
    rw [Sign.chars, List.nil_append]
    split
    · rename_i same
      have minus : '-' ∈ e.row := by
        rw [same]
        exact List.mem_cons_self
      exact absurd (e.digital '-' minus) (by decide)
    · simp [Sign.isNegative, number]

/-- A number is read without its exponent first. -/
theorem ofText?_text (l : Literal) : ofText? l.text =
    (signed? l.mantissa.sign.isNegative l.mantissa.row).bind fun d =>
      l.exponent.elim (some d) fun e => e.shift? d := by
  have plain := plain?_signed l.mantissa []
  rw [List.append_nil, List.append_nil] at plain
  rw [ofText?, Literal.text, String.toList_ofList, ← plain]
  cases l.exponent with
  | none =>
    rw [Option.elim, List.append_nil, scientific?, Text.cutAt?_eq_none l.mantissa.chars_unmarked]
    simp
  | some e =>
    rw [Option.elim, plain?_exponent, scientific?_exponent]
    rfl

theorem reads_row (m : Mantissa) : Reads m.count m.places (magnitude? m.row) := by
  have wholeDigits : ∀ c ∈ m.whole, c.isDigit = true := fun c member =>
    m.digital c (List.mem_append_left _ member)
  have fractionDigits : ∀ c ∈ m.fraction.getD [], c.isDigit = true := fun c member =>
    m.digital c (List.mem_append_right _ member)
  have count : m.count = Nat.ofDigitChars 10 (m.fraction.getD []) (Nat.ofDigitChars 10 m.whole 0) :=
    Nat.ofDigitChars_append ..
  rw [magnitude?, Mantissa.row]
  by_cases large : 2 ^ 96 ≤ Nat.ofDigitChars 10 m.whole 0
  · rw [magnitudeFrom_overflow wholeDigits (by decide) large]
    apply Reads.exceeds
    rw [count, Nat.ofDigitChars_eq_ofDigitChars_zero, le_roundOff_iff, Mantissa.places]
    generalize 10 ^ (m.fraction.getD []).length = unit
    have units := Nat.mul_le_mul_left unit large
    linarith
  · rw [magnitudeFrom_digits 0 0 false false wholeDigits (not_le.mp large) (by simp), count]
    have nonempty := m.nonempty
    rw [Mantissa.places]
    cases point : m.fraction with
    | none =>
      have started : (false || !m.whole.isEmpty) = true := by simpa [point] using nonempty
      rw [started, Option.elim, magnitudeFrom, if_pos rfl]
      exact .rounds ⟨Nat.zero_le _, roundOff_zero _, not_le.mp large, .inl rfl⟩
    | some fraction =>
      rw [point, Option.getD] at fractionDigits
      have started : (false || !m.whole.isEmpty) = true ∨ fraction ≠ [] := by
        simpa [point, or_iff_not_imp_left] using nonempty
      have behind := reads_fraction fractionDigits (not_le.mp large) (Nat.zero_le 28) started
      rwa [Nat.zero_add] at behind

end Decimal

end ItemSchema
