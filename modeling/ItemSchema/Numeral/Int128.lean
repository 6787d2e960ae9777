import ItemSchema.Numeral.Digits

/-! Integers of 128 bits with a sign, and their decimal text. -/
namespace ItemSchema

structure Int128 where
  toInt : Int
  lower : -Int.pow 2 127 ≤ toInt
  upper : toInt < Int.pow 2 127
  deriving DecidableEq

namespace Int128

def ofInt? (n : Int) : Option Int128 :=
  if h : -Int.pow 2 127 ≤ n ∧ n < Int.pow 2 127 then some ⟨n, h.1, h.2⟩ else none

def ofText? (text : String) : Option Int128 :=
  (Numeral.signed? text.toList).bind ofInt?

def toText (n : Int128) : String :=
  (if n.toInt < 0 then "-" else "") ++ String.ofList (Numeral.digits n.toInt.natAbs)

end Int128

end ItemSchema
