import ItemSchema.Numeral.Digits

/-! Decimal numbers of a bounded size: a sign, an integer of 96 bits and the number of its digits
that stand behind the point, at most 28. The scale is part of a number, so 1.0 and 1.00 differ, and
so is the sign of a zero. -/
namespace ItemSchema

structure Decimal where
  negative : Bool
  magnitude : Nat
  scale : Nat
  magnitude_lt : magnitude < Nat.pow 2 96
  scale_le : scale ≤ 28
  deriving DecidableEq

namespace Decimal

def ofParts? (negative : Bool) (magnitude scale : Nat) : Option Decimal :=
  if h : magnitude < Nat.pow 2 96 ∧ scale ≤ 28 then some ⟨negative, magnitude, scale, h.1, h.2⟩
  else none

def ofInt? (n : Int) : Option Decimal :=
  ofParts? (n < 0) n.natAbs 0

/-- Moves zeros at the end of the magnitude out of the scale. -/
def stripZeros : Nat → Nat → Nat × Nat
  | magnitude, 0 => (magnitude, 0)
  | magnitude, scale + 1 =>
    if magnitude % 10 = 0 then stripZeros (magnitude / 10) scale else (magnitude, scale + 1)

theorem stripZeros_bounds (magnitude scale : Nat) :
    (stripZeros magnitude scale).1 ≤ magnitude ∧ (stripZeros magnitude scale).2 ≤ scale := by
  induction scale generalizing magnitude with
  | zero => simp [stripZeros]
  | succ scale ih =>
    unfold stripZeros
    split
    · have := ih (magnitude / 10)
      omega
    · simp

/-- The same number with the least scale; the zero has no sign then. -/
def normalize (d : Decimal) : Decimal where
  negative := d.negative && d.magnitude != 0
  magnitude := (stripZeros d.magnitude d.scale).1
  scale := (stripZeros d.magnitude d.scale).2
  magnitude_lt := Nat.lt_of_le_of_lt (stripZeros_bounds d.magnitude d.scale).1 d.magnitude_lt
  scale_le := Nat.le_trans (stripZeros_bounds d.magnitude d.scale).2 d.scale_le

/-- All digits of the scale are written, also zeros at the end. -/
def toText (d : Decimal) : String :=
  let whole := Numeral.digits (d.magnitude / Nat.pow 10 d.scale)
  let fraction :=
    if d.scale = 0 then []
    else '.' :: Numeral.paddedDigits d.scale (d.magnitude % Nat.pow 10 d.scale)
  (if d.negative then "-" else "") ++ String.ofList (whole ++ fraction)

end Decimal

end ItemSchema
