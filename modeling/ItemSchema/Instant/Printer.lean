import ItemSchema.Instant
import ItemSchema.Numeral.Digits

/-! Timestamps: date and time of day with the letter T between them, in universal time. -/
namespace ItemSchema.Instant

/-- Four digits; a year outside 0 to 9999 has a sign and as many digits as it takes. -/
def yearText (year : Int) : List Char :=
  if year < 0 then '-' :: Numeral.paddedDigits 4 year.natAbs
  else if 9999 < year then '+' :: Numeral.digits year.natAbs
  else Numeral.paddedDigits 4 year.natAbs

def twoDigits (n : Nat) : List Char :=
  Numeral.paddedDigits 2 n

/-- The first digits of the fraction of a second, as many as `places` says. -/
def fractionText (t : Instant) (places : Nat) : List Char :=
  if places = 0 then []
  else '.' :: (Numeral.paddedDigits 9 (t.nanos % 1000000000)).take places

/-- The timestamp up to the fraction. A leap second is written as second 60 at the end of a minute,
and elsewhere like the second that follows. -/
def timestamp (t : Instant) (places : Nat) : List Char :=
  let date := t.date
  let second := t.secondOfDay % 60 + t.nanos / 1000000000
  yearText date.year ++ '-' :: twoDigits date.month ++ '-' :: twoDigits date.day ++
    'T' :: twoDigits (t.secondOfDay / 3600) ++ ':' :: twoDigits (t.secondOfDay / 60 % 60) ++
    ':' :: twoDigits second ++ fractionText t places

/-- The form in which the store keeps dates: three digits behind the second. -/
def toText (t : Instant) : String :=
  String.ofList (t.timestamp 3 ++ ['Z'])

/-- All nine digits behind the second. -/
def toFullText (t : Instant) : String :=
  String.ofList (t.timestamp 9 ++ ['Z'])

/-- As many groups of three digits as the fraction needs, and the offset as a number. -/
def toExactText (t : Instant) : String :=
  let places :=
    if t.nanos % 1000000000 = 0 then 0
    else if t.nanos % 1000000 = 0 then 3
    else if t.nanos % 1000 = 0 then 6
    else 9
  String.ofList (t.timestamp places ++ "+00:00".toList)

end ItemSchema.Instant
