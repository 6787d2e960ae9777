import ItemSchema.Instant.Calendar

/-! Points in time to the nanosecond. A leap second is the second nanosecond billion of the second
before it, which may be any second. -/
namespace ItemSchema

/-- `seconds` counts from the start of 1970, without leap seconds. -/
structure Instant where
  seconds : Int
  nanos : Nat
  bounded : nanos < 2000000000
  deriving DecidableEq

namespace Instant

def ofParts? (seconds : Int) (nanos : Nat) : Option Instant :=
  if h : nanos < 2000000000 then some ⟨seconds, nanos, h⟩ else none

/-- The day number of the start of 1970. -/
def epochDay : Int := Calendar.yearStart 1970

def date (t : Instant) : Calendar.Date :=
  .ofDayNumber (epochDay + t.seconds / 86400)

def secondOfDay (t : Instant) : Nat :=
  (t.seconds % 86400).toNat

/-- Whether no time below the millisecond is lost when three digits are kept. -/
def isWholeMillis (t : Instant) : Bool :=
  t.nanos % 1000000 == 0

/-- Drops what is below the millisecond. -/
def truncateToMillis (t : Instant) : Instant where
  seconds := t.seconds
  nanos := t.nanos - t.nanos % 1000000
  bounded := Nat.lt_of_le_of_lt (Nat.sub_le ..) t.bounded

end Instant

end ItemSchema
