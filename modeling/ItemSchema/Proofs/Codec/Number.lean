import ItemSchema.Proofs.Codec.Lenience
import ItemSchema.Proofs.Numeral.Exactness

/-! Strict decoding of numbers. It can round: the text of a number decides whether the decimal that
comes out is the number that is stored. -/
namespace ItemSchema

open Numeral (Literal Mantissa)

/-- What strict decoding makes of the text of a number. -/
inductive DecodesNumber (p : Path) (number : String) : Except Error Value → Prop where
  | read (taken : ∀ l : Literal, l.text = number →
      (∀ e, l.ReadAs e ↔ e.value = d.value) ∧ (d.value = l.value ↔ l.Exact)) :
    DecodesNumber p number (.ok (.number d))
  | outOfRange (stored : Numeral.isStoreNumber number = true)
      (unread : ∀ l : Literal, l.text = number → l.Unread) :
    DecodesNumber p number (.error (.numberOutOfRange p number))
  | noNumber (unstored : Numeral.isStoreNumber number = false)
      (unread : ∀ l : Literal, l.text = number → l.Unread) :
    DecodesNumber p number (.error (.typeMismatch (.path p) (.scalar .number) (.text number)))

theorem decodesNumber (p : Path) (number : String) :
    DecodesNumber p number (decodeNumber .strict p number) := by
  unfold decodeNumber
  cases read : Decimal.ofText? number with
  | some d =>
    apply DecodesNumber.read
    rintro l rfl
    rcases l.ofText?_readAs with ⟨e, found, taken⟩ | ⟨none, _⟩
    · cases read.symm.trans found
      exact ⟨fun e => taken.iff_value, taken.value_eq_iff⟩
    · rw [none] at read
      contradiction
  | none =>
    have unread : ∀ l : Literal, l.text = number → l.Unread := by
      rintro l rfl
      rcases l.ofText?_readAs with ⟨e, found, _⟩ | ⟨_, unread⟩
      · rw [found] at read
        contradiction
      · exact unread
    simp only [decodeUnfit]
    split
    · rename_i stored
      exact .outOfRange stored unread
    · rename_i unstored
      exact .noNumber (Bool.eq_false_iff.mpr unstored) unread

/-- Numbers and keys come out one by one, and sets if all their members do. -/
theorem decodeAt_number (fill : Bool) (p : Path) :
    (∀ a : Attribute, a.kind.scalarType? = some .number → ∀ number, ∃ result,
      DecodesNumber p number result ∧
        decodeAt ⟨.strict, fill⟩ p a (some (.n number)) = some <$> result) ∧
    ∀ numbers, ∃ results, List.Forall₂ (DecodesNumber p) numbers results ∧
      decodeAt ⟨.strict, fill⟩ p (.set .number) (some (.ns numbers)) =
        (fun members => some (.set members)) <$> results.mapM id := by
  constructor
  · intro a typed number
    refine ⟨decodeNumber .strict p number, decodesNumber p number, ?_⟩
    rw [decodeAt_scalar typed (by simp [Wire.tag]), decodeScalar]
  · intro numbers
    refine ⟨numbers.map (decodeNumber .strict p), ?_, ?_⟩
    · rw [List.forall₂_map_right_iff, List.forall₂_same]
      exact fun number _ => decodesNumber p number
    · rw [decodeAt_set (by simp [Wire.tag]), decodeSet, Functor.map_map]
      simp

namespace Gauge

/-- As many nines behind the point as the store keeps digits, and too many for a decimal. -/
def level : Literal where
  mantissa :=
    { sign := .absent
      whole := ['0']
      fraction := some (List.replicate 38 '9')
      digital := by simp
      nonempty := by simp }
  exponent := none

def full : Decimal :=
  ⟨false, 10 ^ 28, 28, by decide, le_rfl⟩

theorem values : full.value = 1 ∧ level.value = 1 - 1 / 10 ^ 38 := by
  have count : level.mantissa.count = 10 ^ 38 - 1 := by decide +kernel
  have places : level.mantissa.places = 38 := rfl
  constructor
  · norm_num [Decimal.value, full]
  · rw [Literal.value, Mantissa.value, Decimal.ofUnits, count, places]
    norm_num [Literal.power, level, Numeral.Sign.isNegative]

theorem decodeAt_level {a : Attribute} (typed : a.kind.scalarType? = some .number) (fill : Bool)
    (p : Path) : decodeAt ⟨.strict, fill⟩ p a (some (.n level.text)) =
      .ok (some (.number full)) := by
  have read : Decimal.ofText? level.text = some full := by decide +kernel
  rw [decodeAt_scalar typed (by simp [Wire.tag]), decodeScalar, decodeNumber, read]
  rfl

theorem level_read : (Attribute.sortKey .number).kind.scalarType? = some .number ∧
    ∃ d, decodeAt ⟨.strict, true⟩ [.field "level"] (.sortKey .number) (some (.n level.text)) =
      .ok (some (.number d)) ∧ level.ReadAs d ∧ ¬ level.Exact := by
  refine ⟨rfl, full, decodeAt_level rfl true _, ?_⟩
  obtain ⟨result, decodes, decoded⟩ :=
    (decodeAt_number true [.field "level"]).1 (.sortKey .number) rfl level.text
  obtain ⟨v, rfl, same⟩ := map_eq_ok.mp (decoded.symm.trans (decodeAt_level rfl true _))
  cases same
  cases decodes with
  | read taken =>
    obtain ⟨only, exact⟩ := taken level rfl
    refine ⟨(only full).mpr rfl, ?_⟩
    rw [← exact, values.1, values.2]
    norm_num

/-- The gauge shows a full tank where the store has one that is nearly full. -/
theorem level_rounded : level.text = "0.99999999999999999999999999999999999999" ∧
    (Attribute.scalar .number).decode (some (.n level.text)) .strict =
      .ok (some (.number full)) ∧ full.value ≠ level.value := by
  refine ⟨by decide +kernel, decodeAt_level rfl true [], ?_⟩
  rw [values.1, values.2]
  norm_num

end Gauge

end ItemSchema
