import ItemSchema.Instant
import ItemSchema.Numeral.Digits

/-! Instants from timestamps: a year of four digits, any count of digits behind the second, and `Z`
or an offset from universal time. Second 60 is a leap second in every minute. -/
namespace ItemSchema.Instant

/-- A number of exactly that many digits and the text behind it. -/
def fixedDigits? (count : Nat) (text : List Char) : Option (Nat × List Char) :=
  let front := text.take count
  if front.length = count then
    (Numeral.natural? front).map fun n => (n, text.drop count)
  else none

def expect? (c : Char) : List Char → Option (List Char)
  | [] => none
  | d :: rest => if c = d then some rest else none

def date? (text : List Char) : Option (Calendar.Date × List Char) := do
  let (year, rest) ← fixedDigits? 4 text
  let (month, rest) ← fixedDigits? 2 (← expect? '-' rest)
  let (day, rest) ← fixedDigits? 2 (← expect? '-' rest)
  let date : Calendar.Date := ⟨year, month, day⟩
  if date.isValid then some (date, rest) else none

/-- Between date and time stands the letter T or one space. -/
def separator? : List Char → Option (List Char)
  | 'T' :: rest => some rest
  | 't' :: rest => some rest
  | ' ' :: rest => some rest
  | _ => none

/-- Nanoseconds from the digits behind a point; digits from the tenth on are passed over. -/
def fraction? : List Char → Option (Nat × List Char)
  | '.' :: rest =>
    let row := rest.takeWhile Char.isDigit
    if row.isEmpty then none
    else
      let nine := (row ++ List.replicate 9 '0').take 9
      some (Nat.ofDigitChars 10 nine 0, rest.dropWhile Char.isDigit)
  | rest => some (0, rest)

/-- The second of the day and the nanoseconds; a leap second counts as a billion nanoseconds past
the second before it. -/
def time? (text : List Char) : Option (Nat × Nat × List Char) := do
  let (hour, rest) ← fixedDigits? 2 text
  let (minute, rest) ← fixedDigits? 2 (← expect? ':' rest)
  let (second, rest) ← fixedDigits? 2 (← expect? ':' rest)
  let (nanos, rest) ← fraction? rest
  if 23 < hour || 59 < minute || 60 < second then none
  else if second = 60 then some (hour * 3600 + minute * 60 + 59, nanos + 1000000000, rest)
  else some (hour * 3600 + minute * 60 + second, nanos, rest)

def offsetSeconds? (text : List Char) : Option Int := do
  let (hour, rest) ← fixedDigits? 2 text
  let (minute, rest) ← fixedDigits? 2 (← expect? ':' rest)
  if rest.isEmpty && hour ≤ 23 && minute ≤ 59 then some (hour * 3600 + minute * 60) else none

/-- Seconds that the local time is ahead; the sign may be the typographic minus. -/
def offset? : List Char → Option Int
  | ['Z'] => some 0
  | ['z'] => some 0
  | '+' :: rest => offsetSeconds? rest
  | '-' :: rest => (offsetSeconds? rest).map fun s => -s
  | '−' :: rest => (offsetSeconds? rest).map fun s => -s
  | _ => none

def ofText? (text : String) : Option Instant := do
  let (date, rest) ← date? text.toList
  let (second, nanos, rest) ← time? (← separator? rest)
  let offset ← offset? rest
  ofParts? ((date.dayNumber - epochDay) * 86400 + second - offset) nanos

end ItemSchema.Instant
