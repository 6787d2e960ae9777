import ItemSchema.Proofs.Instant.Text
import ItemSchema.Proofs.Numeral.Order

/-! Timestamps of years of four digits have their fields in columns, the year first, so they are
ordered byte by byte as what clocks show, and so as the instants in time that clocks can show. -/
namespace ItemSchema

namespace Calendar

theorem daysOf_take_succ (lengths : List Nat) (count : Nat) :
    daysOf (lengths.take (count + 1)) = daysOf (lengths.take count) + lengths.getD count 0 := by
  induction lengths generalizing count with
  | nil => simp [daysOf]
  | cons length rest ih =>
    cases count with
    | zero => simp [daysOf]
    | succ count =>
      rw [List.take_succ_cons, List.take_succ_cons, daysOf_cons, daysOf_cons, ih, Nat.add_assoc,
        List.getD_cons_succ]

theorem daysOf_take_le (lengths : List Nat) (fewer : m ≤ n) :
    daysOf (lengths.take m) ≤ daysOf (lengths.take n) := by
  induction fewer with
  | refl => exact Nat.le_refl _
  | step _ ih =>
    rw [daysOf_take_succ]
    exact Nat.le_trans ih (Nat.le_add_right ..)

theorem yearStart_le (earlier : year < later) : yearStart (year + 1) ≤ yearStart later := by
  unfold yearStart
  omega

/-- A valid date lies in its month. -/
theorem isValid_iff {d : Date} : d.isValid = true ↔ 1 ≤ d.month ∧ d.month ≤ 12 ∧ 1 ≤ d.day ∧
    d.day ≤ (monthLengths d.year).getD (d.month - 1) 0 := by
  simp [Date.isValid, and_assoc]

theorem dayNumber_bounds {d : Date} (valid : d.isValid = true) :
    yearStart d.year ≤ d.dayNumber ∧ d.dayNumber < yearStart (d.year + 1) := by
  obtain ⟨first, last, day, inMonth⟩ := isValid_iff.mp valid
  have month := daysOf_take_succ (monthLengths d.year) (d.month - 1)
  have year := daysOf_take_le (monthLengths d.year) (show d.month - 1 + 1 ≤ 12 by omega)
  have whole : (monthLengths d.year).take 12 = monthLengths d.year := rfl
  have total := daysOf_monthLengths d.year
  rw [whole] at year
  rw [Date.dayNumber]
  omega

theorem dayNumber_lt_of_year {d e : Date} (valid : d.isValid = true)
    (otherValid : e.isValid = true) (earlier : d.year < e.year) : d.dayNumber < e.dayNumber := by
  have here := dayNumber_bounds valid
  have there := dayNumber_bounds otherValid
  have between := yearStart_le earlier
  omega

theorem dayNumber_lt_of_month {d e : Date} (valid : d.isValid = true)
    (otherValid : e.isValid = true) (year : d.year = e.year) (earlier : d.month < e.month) :
    d.dayNumber < e.dayNumber := by
  obtain ⟨first, _, day, inMonth⟩ := isValid_iff.mp valid
  obtain ⟨_, _, otherDay, _⟩ := isValid_iff.mp otherValid
  have month := daysOf_take_succ (monthLengths d.year) (d.month - 1)
  have later := daysOf_take_le (monthLengths d.year) (show d.month - 1 + 1 ≤ e.month - 1 by omega)
  rw [Date.dayNumber, Date.dayNumber, ← year]
  omega

/-- Dates follow each other by their years, then by their months and then by their days. -/
theorem compare_dayNumber {d e : Date} (valid : d.isValid = true) (otherValid : e.isValid = true) :
    compare d.dayNumber e.dayNumber = (compare d.year e.year).then
      ((compare d.month e.month).then (compare d.day e.day)) := by
  refine compare_eq_then (dayNumber_lt_of_year valid otherValid)
    (dayNumber_lt_of_year otherValid valid) fun sameYear => ?_
  refine compare_eq_then (dayNumber_lt_of_month valid otherValid sameYear)
    (dayNumber_lt_of_month otherValid valid sameYear.symm) fun sameMonth => ?_
  rw [Date.dayNumber, Date.dayNumber, sameYear, sameMonth]
  exact compare_eq_compare (by omega) (by omega) (by omega)

end Calendar

namespace Instant

/-- The order of instants in time. A leap second comes behind the second that it belongs to. -/
def order (t u : Instant) : Ordering :=
  (compare t.seconds u.seconds).then (compare t.nanos u.nanos)

/-- The numbers of a timestamp to the millisecond, from the year on. -/
def fields (t : Instant) : List Nat :=
  [t.date.year.natAbs, t.date.month, t.date.day, t.secondOfDay / 3600, t.secondOfDay / 60 % 60,
    t.secondOfDay % 60 + t.nanos / 1000000000, t.nanos % 1000000000 / 1000000]

/-- The columns of a timestamp to the millisecond. -/
def layout : List Column :=
  [{ width := 4, mark := '-' }, { width := 2, mark := '-' }, { width := 2, mark := 'T' },
    { width := 2, mark := ':' }, { width := 2, mark := ':' }, { width := 2, mark := '.' },
    { width := 3, mark := 'Z' }]

variable {t u : Instant}

theorem date_isValid (t : Instant) : t.date.isValid = true :=
  (Calendar.ofDayNumber_spec _).1

theorem date_dayNumber (t : Instant) : t.date.dayNumber = epochDay + t.seconds / 86400 :=
  (Calendar.ofDayNumber_spec _).2

theorem fields_fit (year : t.InReadableYear) : List.Forall₂ Column.Fits layout t.fields := by
  obtain ⟨month, day⟩ := month_le t.date_isValid
  have inDay := t.secondOfDay_lt
  have bound := t.bounded
  have second : t.secondOfDay % 60 + t.nanos / 1000000000 < 100 := by omega
  obtain ⟨_, short⟩ := year
  simp only [layout, fields, List.forall₂_cons, Column.Fits]
  refine ⟨?_, ?_, ?_, ?_, ?_, ?_, ?_, .nil⟩ <;> omega

theorem toText_eq_columns (year : t.InReadableYear) :
    t.toText = String.ofList (Text.columns layout t.fields) := by
  have written : yearText t.date.year = Numeral.paddedDigits 4 t.date.year.natAbs := by
    obtain ⟨positive, short⟩ := year
    rw [yearText, if_neg (by omega), if_neg (by omega)]
  have fraction : fractionText t 3 =
      '.' :: Numeral.paddedDigits 3 (t.nanos % 1000000000 / 1000000) := by
    have bound : t.nanos % 1000000000 < 10 ^ (3 + 6) := Nat.mod_lt _ (by decide)
    exact congrArg _ (Numeral.paddedDigits_take bound (by decide))
  simp [toText, timestamp, written, fraction, twoDigits, layout, fields, Text.columns]

/-- The nanoseconds since the start of the minute. -/
def nanosOfMinute (t : Instant) : Nat :=
  1000000000 * (t.secondOfDay % 60) + t.nanos

/-- On the clock a leap second is at the end of its minute, so no nanosecond of the minute is behind
it. -/
theorem compare_nanosOfMinute (clock : t.OnClock) (otherClock : u.OnClock) :
    compare t.nanosOfMinute u.nanosOfMinute =
      (compare (t.secondOfDay % 60) (u.secondOfDay % 60)).then (compare t.nanos u.nanos) := by
  have plain : ∀ {t : Instant}, t.OnClock → t.secondOfDay % 60 < 59 → t.nanos < 1000000000 := by
    intro t clock early
    rw [secondOfDay] at early
    exact clock.resolve_right (by omega)
  have here := plain clock
  have there := plain otherClock
  rw [nanosOfMinute, nanosOfMinute]
  refine compare_eq_then (by omega) (by omega) fun same => ?_
  rw [same, Numeral.compare_add]

theorem compare_nanosOfMinute_written (millis : t.isWholeMillis = true)
    (otherMillis : u.isWholeMillis = true) : compare t.nanosOfMinute u.nanosOfMinute =
      (compare (t.secondOfDay % 60 + t.nanos / 1000000000)
        (u.secondOfDay % 60 + u.nanos / 1000000000)).then
        (compare (t.nanos % 1000000000 / 1000000) (u.nanos % 1000000000 / 1000000)) := by
  simp only [isWholeMillis, beq_iff_eq] at millis otherMillis
  rw [nanosOfMinute, nanosOfMinute]
  refine compare_eq_then (by omega) (by omega) fun sameSecond => ?_
  exact compare_eq_compare (by omega) (by omega) (by omega)

theorem compare_secondOfDay (t u : Instant) : compare t.secondOfDay u.secondOfDay =
    (compare (t.secondOfDay / 3600) (u.secondOfDay / 3600)).then
      ((compare (t.secondOfDay / 60 % 60) (u.secondOfDay / 60 % 60)).then
        (compare (t.secondOfDay % 60) (u.secondOfDay % 60))) := by
  refine compare_eq_then (by omega) (by omega) fun sameHour => ?_
  refine compare_eq_then (by omega) (by omega) fun sameMinute => ?_
  exact compare_eq_compare (by omega) (by omega) (by omega)

theorem compare_seconds (t u : Instant) : compare t.seconds u.seconds =
    (compare t.date.dayNumber u.date.dayNumber).then (compare t.secondOfDay u.secondOfDay) := by
  rw [date_dayNumber, date_dayNumber, secondOfDay, secondOfDay]
  refine compare_eq_then (by omega) (by omega) fun sameDay => ?_
  exact compare_eq_compare (by omega) (by omega) (by omega)

theorem compare_natAbs {y z : Int} (positive : 0 ≤ y) (otherPositive : 0 ≤ z) :
    compare y z = compare y.natAbs z.natAbs :=
  compare_eq_compare (by omega) (by omega) (by omega)

/-- The fields of timestamps are ordered as the instants are. -/
theorem compare_fields (clock : t.OnClock) (otherClock : u.OnClock)
    (year : t.InReadableYear) (otherYear : u.InReadableYear)
    (millis : t.isWholeMillis = true) (otherMillis : u.isWholeMillis = true) :
    compare t.fields u.fields = t.order u := by
  rw [order, compare_seconds, Calendar.compare_dayNumber t.date_isValid u.date_isValid,
    compare_secondOfDay, compare_natAbs year.1 otherYear.1]
  simp only [fields, List.compare_cons_cons, List.compare_nil_nil, Ordering.then_eq,
    Ordering.then_assoc]
  rw [← compare_nanosOfMinute_written millis otherMillis, compare_nanosOfMinute clock otherClock]

theorem order_eq_iff : t.order u = .eq ↔ t = u := by
  obtain ⟨seconds, nanos, _⟩ := t
  obtain ⟨otherSeconds, otherNanos, _⟩ := u
  simp [order]

/-- Timestamps to the millisecond are ordered as the instants are, if clocks can show these. -/
theorem byteOrder_toText_of_onClock (clock : t.OnClock) (otherClock : u.OnClock)
    (year : t.InReadableYear) (otherYear : u.InReadableYear)
    (millis : t.isWholeMillis = true) (otherMillis : u.isWholeMillis = true) :
    Text.byteOrder t.toText u.toText = t.order u := by
  rw [toText_eq_columns year, toText_eq_columns otherYear,
    compare_columns (fields_fit year) (fields_fit otherYear),
    compare_fields clock otherClock year otherYear millis otherMillis]

theorem byteOrder_toText (year : t.InReadableYear) (otherYear : u.InReadableYear)
    (millis : t.isWholeMillis = true) (otherMillis : u.isWholeMillis = true) :
    Text.byteOrder t.toText u.toText = t.shown.order u.shown := by
  rw [← t.toText_shown, ← u.toText_shown]
  exact byteOrder_toText_of_onClock t.shown_onClock u.shown_onClock
    (inReadableYear_shown.mpr year) (inReadableYear_shown.mpr otherYear)
    (t.isWholeMillis_shown.trans millis) (u.isWholeMillis_shown.trans otherMillis)

theorem utf8_toText_length (year : t.InReadableYear) : (Text.utf8 t.toText).length = 24 := by
  rw [toText_eq_columns year, Text.utf8_ofList _ (columns_ascii layout t.fields),
    List.length_map, columns_length (fields_fit year)]
  rfl

end Instant

end ItemSchema
