import ItemSchema.Numeral.Digits

/-! Finite binary64 numbers: rounding a decimal to the nearest one, and the fewest digits that read
back to one. All arithmetic is on exact integers. -/
namespace ItemSchema

/-- The number is `mantissa * 2 ^ exponent`; the mantissa has at most 53 bits, and 53 unless the
exponent is least. -/
structure Binary64 where
  negative : Bool
  mantissa : Nat
  exponent : Int
  deriving DecidableEq, Repr

namespace Binary64

def leastExponent : Int := -1074

def greatestExponent : Int := 971

/-- The nearest integer to a quotient; a tie goes to the even neighbour. -/
def roundQuotient (dividend divisor : Nat) : Nat :=
  let quotient := dividend / divisor
  let twice := 2 * (dividend % divisor)
  if twice < divisor || (twice = divisor && quotient % 2 = 0) then quotient else quotient + 1

/-- `dividend / divisor` in units of `2 ^ exponent`, as a quotient. -/
def inUnits (dividend divisor : Nat) (exponent : Int) : Nat × Nat :=
  (dividend * Nat.pow 2 (-exponent).toNat, divisor * Nat.pow 2 exponent.toNat)

/-- The nearest number to a positive quotient, if none is too large. -/
def ofQuotient? (negative : Bool) (dividend divisor : Nat) : Option Binary64 :=
  let start := max ((dividend.log2 : Int) - divisor.log2 - 53) leastExponent
  let (top, bottom) := inUnits dividend divisor start
  let exponent := if top / bottom < Nat.pow 2 53 then start else start + 1
  let (top, bottom) := inUnits dividend divisor exponent
  let rounded := roundQuotient top bottom
  let (mantissa, exponent) :=
    if rounded = Nat.pow 2 53 then (Nat.pow 2 52, exponent + 1) else (rounded, exponent)
  if exponent ≤ greatestExponent then some ⟨negative, mantissa, exponent⟩ else none

/-- The nearest number to `digits * 10 ^ exponent`, if none is too large. Exponents beyond every
number's are decided by the count of digits, without computing the power. -/
def ofScaled? (negative : Bool) (digits : Nat) (exponent : Int) : Option Binary64 :=
  let place : Int := (Numeral.digits digits).length + exponent
  if digits = 0 || place < -330 then some ⟨negative, 0, leastExponent⟩
  else if 310 < place then none
  else ofQuotient? negative (digits * Nat.pow 10 exponent.toNat) (Nat.pow 10 (-exponent).toNat)

/-- Compares `a * 10 ^ i` with `b * 2 ^ j`. -/
def compareScaled (a : Nat) (i : Int) (b : Nat) (j : Int) : Ordering :=
  compare (a * Nat.pow 10 i.toNat * Nat.pow 2 (-j).toNat)
    (b * Nat.pow 2 j.toNat * Nat.pow 10 (-i).toNat)

/-- Whether `digits * 10 ^ exponent` lies among the reals that round to the number's magnitude.
Below a power of two the neighbour is half as far away as above. -/
def readsBack (x : Binary64) (digits : Nat) (exponent : Int) : Bool :=
  let narrow := x.mantissa = Nat.pow 2 52 && leastExponent < x.exponent
  let low := if narrow then 4 * x.mantissa - 1 else 4 * x.mantissa - 2
  let high := 4 * x.mantissa + 2
  let closed := x.mantissa % 2 == 0
  let overLow := compareScaled digits exponent low (x.exponent - 2)
  let underHigh := compareScaled digits exponent high (x.exponent - 2)
  (overLow == .gt || (closed && overLow == .eq)) &&
    (underHigh == .lt || (closed && underHigh == .eq))

/-- The least `k` with the magnitude below `10 ^ k`. -/
def place (x : Binary64) : Int :=
  let shifted := x.mantissa * Nat.pow 2 x.exponent.toNat * Nat.pow 10 340 /
    Nat.pow 2 (-x.exponent).toNat
  (Numeral.digits shifted).length - 340

/-- Of the two neighbours of the magnitude on the grid `10 ^ exponent` the one that reads back; of
two the nearer, of two equally near the even one. -/
def onGrid? (x : Binary64) (exponent : Int) : Option (Nat × Int) :=
  let below := x.mantissa * Nat.pow 2 x.exponent.toNat * Nat.pow 10 (-exponent).toNat /
    (Nat.pow 2 (-x.exponent).toNat * Nat.pow 10 exponent.toNat)
  let above := below + 1
  match x.readsBack below exponent, x.readsBack above exponent with
  | false, false => none
  | true, false => some (below, exponent)
  | false, true => some (above, exponent)
  | true, true =>
    match compareScaled (below + above) exponent (2 * x.mantissa) x.exponent with
    | .lt => some (above, exponent)
    | .gt => some (below, exponent)
    | .eq => some (if below % 2 = 0 then below else above, exponent)

/-- The fewest digits that read back to the magnitude of a number other than zero, and the power of
ten of the last one. Seventeen digits always do, so the exact value stands in for none; a neighbour
above may be the next power of ten, which takes one digit. -/
def shortest (x : Binary64) : Nat × Int :=
  match (List.range 17).findSome? fun n => x.onGrid? (x.place - 1 - (n : Nat)) with
  | some (10, exponent) => (1, exponent + 1)
  | some found => found
  | none =>
    (x.mantissa * Nat.pow 2 x.exponent.toNat * Nat.pow 5 (-x.exponent).toNat, min x.exponent 0)

/-- Positional from 10^-5 up to 10^16, with at least one digit behind the point; otherwise one digit
in front of the point and a signed exponent. -/
def toText (x : Binary64) : String :=
  let sign := if x.negative then "-" else ""
  if x.mantissa = 0 then sign ++ "0.0" else
  let (number, exponent) := x.shortest
  let row := Numeral.digits number
  let leading : Int := row.length + exponent - 1
  let text :=
    if -5 ≤ leading ∧ leading < 16 then
      if 0 ≤ exponent then row ++ List.replicate exponent.toNat '0' ++ ['.', '0']
      else if 0 ≤ leading then
        row.take (leading.toNat + 1) ++ '.' :: row.drop (leading.toNat + 1)
      else '0' :: '.' :: List.replicate (-leading - 1).toNat '0' ++ row
    else
      row.take 1 ++ (if row.length = 1 then [] else '.' :: row.drop 1) ++
        ['e', if leading < 0 then '-' else '+'] ++ Numeral.digits leading.natAbs
  sign ++ String.ofList text

end Binary64

end ItemSchema
