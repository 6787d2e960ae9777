import ItemSchema.Numeral.Binary64
import ItemSchema.Text.Split

/-! The number texts that the store takes: digits with at most one point among them and perhaps an
exponent, of a size that binary64 can hold. -/
namespace ItemSchema.Numeral

/-- The number as `digits * 10 ^ exponent`. -/
def unscaled? (mantissa : List Char) (exponent : Int) : Option (Nat × Int) :=
  let (whole, fraction) := (Text.cutAt? (· = '.') mantissa).getD (mantissa, [])
  (natural? (whole ++ fraction)).map fun n => (n, exponent - fraction.length)

def unsignedNumber? (text : List Char) : Option (Nat × Int) :=
  match Text.cutAt? (fun c => c = 'e' || c = 'E') text with
  | none => unscaled? text 0
  | some (mantissa, exponent) => (signed? exponent).bind (unscaled? mantissa)

def isStoreNumber (text : String) : Bool :=
  let unsigned := match text.toList with
    | '-' :: rest => rest
    | '+' :: rest => rest
    | rest => rest
  match unsignedNumber? unsigned with
  | some (n, exponent) => (Binary64.ofScaled? false n exponent).isSome
  | none => false

end ItemSchema.Numeral
