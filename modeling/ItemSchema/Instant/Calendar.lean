/-! The calendar with leap years extended to all years: dates and their day numbers. Day 0 is the
first of January of year 1. -/
namespace ItemSchema.Calendar

structure Date where
  year : Int
  month : Nat
  day : Nat
  deriving DecidableEq

def isLeap (year : Int) : Bool :=
  year % 4 = 0 && (year % 100 != 0 || year % 400 = 0)

def monthLengths (year : Int) : List Nat :=
  [31, if isLeap year then 29 else 28, 31, 30, 31, 30, 31, 31, 30, 31, 30, 31]

/-- The days of months with the given lengths. -/
def daysOf (lengths : List Nat) : Nat :=
  lengths.foldr (· + ·) 0

/-- The day number of the first day of a year. -/
def yearStart (year : Int) : Int :=
  365 * (year - 1) + (year - 1) / 4 - (year - 1) / 100 + (year - 1) / 400

def Date.isValid (d : Date) : Bool :=
  1 ≤ d.month && d.month ≤ 12 && 1 ≤ d.day && d.day ≤ (monthLengths d.year).getD (d.month - 1) 0

def Date.dayNumber (d : Date) : Int :=
  yearStart d.year + daysOf ((monthLengths d.year).take (d.month - 1)) + (d.day - 1)

/-- The month and the day for a number of days since the start of a year, counting months from the
given one. -/
def monthOf (month : Nat) : List Nat → Nat → Nat × Nat
  | [], days => (month, days + 1)
  | length :: rest, days =>
    if days < length then (month, days + 1) else monthOf (month + 1) rest (days - length)

/-- 400 years have 146097 days, so the mean year misses the true one by less than a year. -/
def yearOf (day : Int) : Int :=
  let guess := day * 400 / 146097 + 1
  if day < yearStart guess then guess - 1
  else if yearStart (guess + 1) ≤ day then guess + 1
  else guess

def Date.ofDayNumber (day : Int) : Date :=
  let year := yearOf day
  let (month, day) := monthOf 1 (monthLengths year) (day - yearStart year).toNat
  ⟨year, month, day⟩

end ItemSchema.Calendar
