import ItemSchema.Numeral.Decimal
import ItemSchema.Text.Split

/-! Decimal numbers from text, plain or with an exponent. Digits behind the point that have no place
in 96 bits or in a scale of 28 are rounded off, half away from zero. -/
namespace ItemSchema.Decimal

/-- The magnitude without its last digits, rounded. -/
def roundOff (magnitude count : Nat) : Nat :=
  (2 * magnitude + Nat.pow 10 count) / (2 * Nat.pow 10 count)

/-- Rounds by the first digit that has no place. If all 96 bits are set, rounding up takes one more
digit off. -/
def roundBy (magnitude scale decider : Nat) : Option (Nat × Nat) :=
  if decider < 5 then some (magnitude, scale)
  else if magnitude + 1 < Nat.pow 2 96 then some (magnitude + 1, scale)
  else if scale = 0 then none
  else some (roundOff (magnitude + 1) 1, scale - 1)

/-- What may follow the digit that decides the rounding. -/
def isTail (text : List Char) : Bool :=
  text.all fun c => c.isDigit || c = '_'

/-- Whether a magnitude without its last digit stays below a tenth of 64 bits, less 255. -/
def isShort (magnitude : Nat) : Bool :=
  magnitude / 10 < (Nat.pow 2 64 - 1) / 10 - 255

/-- Reads digits with at most one point among them. Underscores may stand behind the first digit and
are passed over, but one that follows the 28th place of a short magnitude decides as a zero would.
`pointed` tells that the point has been read, `started` that a digit has. -/
def magnitudeFrom (magnitude scale : Nat) (pointed started : Bool) :
    List Char → Option (Nat × Nat)
  | [] => if started then some (magnitude, scale) else none
  | c :: rest =>
    if c.isDigit then
      let digit := Numeral.digitValue c
      let next := magnitude * 10 + digit
      if next < Nat.pow 2 96 && (!pointed || scale < 28) then
        magnitudeFrom next (if pointed then scale + 1 else scale) pointed true rest
      else if pointed && isTail rest then roundBy magnitude scale digit
      else none
    else if c = '.' && !pointed then magnitudeFrom magnitude scale true started rest
    else if c = '_' && started then
      if scale = 28 && isShort magnitude then
        if isTail rest then roundBy magnitude scale 0 else none
      else magnitudeFrom magnitude scale pointed started rest
    else none

def magnitude? (text : List Char) : Option (Nat × Nat) :=
  magnitudeFrom 0 0 false false text

/-- A number without an exponent; a zero is taken without its sign. -/
def signed? (negative : Bool) (text : List Char) : Option Decimal := do
  let (magnitude, scale) ← magnitude? text
  ofParts? (negative && magnitude != 0) magnitude scale

def plain? : List Char → Option Decimal
  | '-' :: rest => signed? true rest
  | '+' :: rest => signed? false rest
  | text => signed? false text

/-- A negative exponent lengthens the scale. What it pushes behind the 28th place is rounded off,
and a zero that is left has the sign of the number. -/
def shiftDown? (d : Decimal) (exponent : Nat) : Option Decimal :=
  if 28 < exponent then none
  else
    let excess := d.scale + exponent - 28
    ofParts? d.negative (roundOff d.magnitude excess) (d.scale + exponent - excess)

/-- A positive exponent shortens the scale, and what is left of it multiplies the magnitude. -/
def shiftUp? (d : Decimal) (exponent : Nat) : Option Decimal :=
  if exponent ≤ d.scale then ofParts? d.negative d.magnitude (d.scale - exponent)
  else if exponent ≤ 28 then ofParts? d.negative (d.magnitude * Nat.pow 10 (exponent - d.scale)) 0
  else none

/-- A number with an exponent behind the first `e` of the text. -/
def scientific? (text : List Char) : Option Decimal := do
  let (base, exponent) ← Text.cutAt? (fun c => c = 'e' || c = 'E') text
  let d ← plain? base
  match exponent with
  | '-' :: rest => shiftDown? d (← Numeral.unsigned? rest)
  | rest => shiftUp? d (← Numeral.unsigned? rest)

def ofText? (text : String) : Option Decimal :=
  plain? text.toList <|> scientific? text.toList

end ItemSchema.Decimal
