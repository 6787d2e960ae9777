/-! Natural numbers as rows of decimal digits. -/
namespace ItemSchema.Numeral

def digits (n : Nat) : List Char :=
  Nat.toDigits 10 n

/-- The digits with zeros in front up to a width. -/
def paddedDigits (width n : Nat) : List Char :=
  List.replicate (width - (digits n).length) '0' ++ digits n

def digitValue (c : Char) : Nat :=
  c.toNat - '0'.toNat

/-- One or more digits and nothing else. -/
def natural? (text : List Char) : Option Nat :=
  if text.isEmpty || !text.all Char.isDigit then none else some (Nat.ofDigitChars 10 text 0)

/-- Digits that may have a plus sign in front. -/
def unsigned? : List Char → Option Nat
  | '+' :: rest => natural? rest
  | text => natural? text

/-- Digits that may have a sign in front. -/
def signed? : List Char → Option Int
  | '-' :: rest => (natural? rest).map fun n => -(n : Int)
  | text => (unsigned? text).map Int.ofNat

/-- An index is a natural number of 64 bits. -/
def index? (text : List Char) : Option Nat :=
  (natural? text).filter (· < Nat.pow 2 64)

end ItemSchema.Numeral
