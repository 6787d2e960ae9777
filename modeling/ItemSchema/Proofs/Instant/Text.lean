import ItemSchema.Instant.Printer
import ItemSchema.Instant.Reader
import ItemSchema.Proofs.Instant.Calendar
import ItemSchema.Proofs.Numeral.Digits

/-! A timestamp to the millisecond reads back if and only if the year has four digits: only then is
it written the way in which timestamps are read. It reads back as the instant that clocks show,
which is the same one, unless it is in a leap second that is not at the end of a minute. -/
namespace ItemSchema.Instant

/-- The years whose timestamps can be read. -/
def InReadableYear (t : Instant) : Prop :=
  0 ≤ t.date.year ∧ t.date.year ≤ 9999

instance (t : Instant) : Decidable t.InReadableYear :=
  inferInstanceAs (Decidable (_ ∧ _))

/-- Clocks have leap seconds at the end of a minute only, where they count to 60. -/
def OnClock (t : Instant) : Prop :=
  t.nanos < 1000000000 ∨ t.seconds % 60 = 59

instance (t : Instant) : Decidable t.OnClock :=
  inferInstanceAs (Decidable (_ ∨ _))

/-- What clocks show at an instant: a leap second elsewhere passes for the second that follows. -/
def shown (t : Instant) : Instant :=
  if t.OnClock then t
  else {
    seconds := t.seconds + 1
    nanos := t.nanos - 1000000000
    bounded := Nat.lt_of_le_of_lt (Nat.sub_le ..) t.bounded
  }

theorem shown_onClock (t : Instant) : t.shown.OnClock := by
  rw [shown]
  split
  · assumption
  · have bound := t.bounded
    left
    dsimp only
    omega

theorem shown_eq_iff {t : Instant} : t.shown = t ↔ t.OnClock :=
  ⟨fun same => same ▸ t.shown_onClock, fun clock => if_pos clock⟩

/-- An instant off the clock is counted on within its minute. -/
theorem shown_fields (t : Instant) : t.shown.seconds / 60 = t.seconds / 60 ∧
    t.shown.seconds % 60 + (t.shown.nanos / 1000000000 : Nat) =
      t.seconds % 60 + (t.nanos / 1000000000 : Nat) ∧
    t.shown.nanos % 1000000000 = t.nanos % 1000000000 := by
  rw [shown]
  split
  · exact ⟨rfl, rfl, rfl⟩
  · rename_i off
    obtain ⟨leap, inside⟩ := not_or.mp off
    have bound := t.bounded
    dsimp only
    omega

theorem date_shown (t : Instant) : t.shown.date = t.date := by
  obtain ⟨minute, _, _⟩ := t.shown_fields
  have day : t.shown.seconds / 86400 = t.seconds / 86400 := by omega
  rw [date, date, day]

theorem inReadableYear_shown {t : Instant} : t.shown.InReadableYear ↔ t.InReadableYear := by
  rw [InReadableYear, date_shown, InReadableYear]

theorem isWholeMillis_shown (t : Instant) : t.shown.isWholeMillis = t.isWholeMillis := by
  obtain ⟨_, _, nanos⟩ := t.shown_fields
  have millis : t.shown.nanos % 1000000 = t.nanos % 1000000 := by omega
  rw [isWholeMillis, isWholeMillis, millis]

theorem timestamp_shown (t : Instant) (places : Nat) :
    t.shown.timestamp places = t.timestamp places := by
  obtain ⟨minute, second, nanos⟩ := t.shown_fields
  have hour : t.shown.secondOfDay / 3600 = t.secondOfDay / 3600 := by
    rw [secondOfDay, secondOfDay]
    omega
  have minute : t.shown.secondOfDay / 60 % 60 = t.secondOfDay / 60 % 60 := by
    rw [secondOfDay, secondOfDay]
    omega
  have second : t.shown.secondOfDay % 60 + t.shown.nanos / 1000000000 =
      t.secondOfDay % 60 + t.nanos / 1000000000 := by
    rw [secondOfDay, secondOfDay]
    omega
  simp only [timestamp, fractionText, date_shown, hour, minute, second, nanos]

theorem toText_shown (t : Instant) : t.shown.toText = t.toText := by
  rw [toText, timestamp_shown, toText]

theorem toExactText_shown (t : Instant) : t.shown.toExactText = t.toExactText := by
  obtain ⟨_, _, nanos⟩ := t.shown_fields
  have millis : t.shown.nanos % 1000000 = t.nanos % 1000000 := by omega
  have micros : t.shown.nanos % 1000 = t.nanos % 1000 := by omega
  simp only [toExactText, timestamp_shown, nanos, millis, micros]

theorem fixedDigits?_padded (bound : n < 10 ^ width) (positive : 0 < width) (rest : List Char) :
    fixedDigits? width (Numeral.paddedDigits width n ++ rest) = some (n, rest) := by
  have length := Numeral.paddedDigits_length bound positive
  simp [fixedDigits?, List.take_left' length, List.drop_left' length, length]

theorem fixedDigits?_twoDigits (bound : n < 100) (rest : List Char) :
    fixedDigits? 2 (twoDigits n ++ rest) = some (n, rest) :=
  fixedDigits?_padded bound (by decide) rest

theorem expect?_cons (c : Char) (rest : List Char) : expect? c (c :: rest) = some rest := by
  simp [expect?]

theorem month_le {d : Calendar.Date} (valid : d.isValid = true) : d.month ≤ 12 ∧ d.day ≤ 31 := by
  simp only [Calendar.Date.isValid, Bool.and_eq_true, decide_eq_true_eq] at valid
  obtain ⟨⟨⟨first, last⟩, _⟩, short⟩ := valid
  refine ⟨last, Nat.le_trans short ?_⟩
  have lengths : ∀ length ∈ Calendar.monthLengths d.year, length ≤ 31 := by
    intro length member
    simp only [Calendar.monthLengths] at member
    split at member <;> simp at member <;> omega
  rw [List.getD_eq_getElem?_getD]
  cases found : (Calendar.monthLengths d.year)[d.month - 1]? with
  | none => simp
  | some length => exact lengths length (List.mem_of_getElem? found)

theorem date?_written {d : Calendar.Date} (valid : d.isValid = true)
    (positive : 0 ≤ d.year) (short : d.year ≤ 9999) (rest : List Char) :
    date? (yearText d.year ++
      '-' :: (twoDigits d.month ++ '-' :: (twoDigits d.day ++ rest))) = some (d, rest) := by
  have year : yearText d.year = Numeral.paddedDigits 4 d.year.natAbs := by
    rw [yearText, if_neg (by omega), if_neg (by omega)]
  have same : ((d.year.natAbs : Nat) : Int) = d.year := by omega
  obtain ⟨month, day⟩ := month_le valid
  simp only [date?, bind, Option.bind, year,
    fixedDigits?_padded (show d.year.natAbs < 10 ^ 4 by omega), expect?_cons,
    fixedDigits?_twoDigits (show d.month < 100 by omega),
    fixedDigits?_twoDigits (show d.day < 100 by omega), same, valid, if_true,
    show 0 < 4 by decide]

theorem fraction?_written (nanos : Nat) (last : Char) (noDigit : last.isDigit = false)
    (bound : nanos < 1000000000) (millis : nanos % 1000000 = 0) :
    fraction? ('.' :: ((Numeral.paddedDigits 9 nanos).take 3 ++ [last])) =
      some (nanos, [last]) := by
  have length : (Numeral.paddedDigits 9 nanos).length = 9 :=
    Numeral.paddedDigits_length bound (by decide)
  have digital : ∀ c ∈ (Numeral.paddedDigits 9 nanos).take 3, c.isDigit = true :=
    fun c member => Numeral.paddedDigits_isDigit (List.mem_of_mem_take member)
  have three : ((Numeral.paddedDigits 9 nanos).take 3).length = 3 := by
    rw [List.length_take, length]
    rfl
  have front : ((Numeral.paddedDigits 9 nanos).take 3 ++ [last]).takeWhile Char.isDigit =
      (Numeral.paddedDigits 9 nanos).take 3 := by
    rw [List.takeWhile_append_of_pos digital]
    simp [noDigit]
  have back : ((Numeral.paddedDigits 9 nanos).take 3 ++ [last]).dropWhile Char.isDigit =
      [last] := by
    rw [List.dropWhile_append_of_pos digital]
    simp [noDigit]
  have nine : ((Numeral.paddedDigits 9 nanos).take 3 ++ List.replicate 9 '0').take 9 =
      (Numeral.paddedDigits 9 nanos).take 3 ++ List.replicate 6 '0' := by
    rw [List.take_append, three, List.take_of_length_le (by omega), List.take_replicate]
    rfl
  have value : Nat.ofDigitChars 10
      ((Numeral.paddedDigits 9 nanos).take 3 ++ List.replicate 6 '0') 0 = nanos := by
    rw [Nat.ofDigitChars_append, Nat.ofDigitChars_replicate_zero,
      Numeral.ofDigitChars_take (fun _ => Numeral.paddedDigits_isDigit),
      Numeral.paddedDigits_value, length]
    omega
  have full : ((Numeral.paddedDigits 9 nanos).take 3).isEmpty = false := by
    cases row : (Numeral.paddedDigits 9 nanos).take 3 with
    | nil => simp [row] at three
    | cons => rfl
  simp only [fraction?, front, back, nine, value, full, Bool.false_eq_true, if_false]

theorem secondOfDay_lt (t : Instant) : t.secondOfDay < 86400 := by
  rw [secondOfDay]
  omega

/-- A leap second is written as second 60 and read as the billion nanoseconds that it counts. -/
theorem time?_written {t : Instant} (clock : t.OnClock) (millis : t.isWholeMillis = true) :
    time? (twoDigits (t.secondOfDay / 3600) ++ ':' :: (twoDigits (t.secondOfDay / 60 % 60) ++
      ':' :: (twoDigits (t.secondOfDay % 60 + t.nanos / 1000000000) ++
        (fractionText t 3 ++ ['Z'])))) = some (t.secondOfDay, t.nanos, ['Z']) := by
  have day := secondOfDay_lt t
  have whole : t.nanos % 1000000000 % 1000000 = 0 := by
    simp only [isWholeMillis, beq_iff_eq] at millis
    omega
  have fraction : fraction? (fractionText t 3 ++ ['Z']) = some (t.nanos % 1000000000, ['Z']) :=
    fraction?_written _ 'Z' (by decide) (Nat.mod_lt _ (by decide)) whole
  have hour : t.secondOfDay / 3600 < 100 := by omega
  have minute : t.secondOfDay / 60 % 60 < 100 := by omega
  have bound := t.bounded
  have second : t.secondOfDay % 60 + t.nanos / 1000000000 < 100 := by omega
  simp only [time?, bind, Option.bind, fixedDigits?_twoDigits hour, fixedDigits?_twoDigits minute,
    fixedDigits?_twoDigits second, expect?_cons, fraction]
  rcases Nat.lt_or_ge t.nanos 1000000000 with plain | leap
  · have none : t.nanos / 1000000000 = 0 := Nat.div_eq_of_lt plain
    rw [none, Nat.add_zero, if_neg (by simp; omega), if_neg (by omega), Nat.mod_eq_of_lt plain]
    congr 2
    omega
  · have last : t.seconds % 60 = 59 := clock.resolve_left (Nat.not_lt.mpr leap)
    have once : t.nanos / 1000000000 = 1 := by omega
    have final : t.secondOfDay % 60 = 59 := by
      rw [secondOfDay]
      omega
    rw [once, final, if_neg (by simp; omega), if_pos rfl]
    have seconds : t.secondOfDay / 3600 * 3600 + t.secondOfDay / 60 % 60 * 60 + 59 =
        t.secondOfDay := by omega
    have nanos : t.nanos % 1000000000 + 1000000000 = t.nanos := by omega
    rw [seconds, nanos]

/-- Whole milliseconds of a readable year survive their timestamp. -/
theorem ofText?_toText_of_onClock {t : Instant} (clock : t.OnClock)
    (millis : t.isWholeMillis = true) (year : t.InReadableYear) : ofText? t.toText = some t := by
  obtain ⟨valid, number⟩ : t.date.isValid = true ∧
      t.date.dayNumber = epochDay + t.seconds / 86400 := Calendar.ofDayNumber_spec _
  have chars : t.toText.toList = yearText t.date.year ++
      '-' :: (twoDigits t.date.month ++ '-' :: (twoDigits t.date.day ++
        ('T' :: (twoDigits (t.secondOfDay / 3600) ++ ':' :: (twoDigits (t.secondOfDay / 60 % 60) ++
          ':' :: (twoDigits (t.secondOfDay % 60 + t.nanos / 1000000000) ++
            (fractionText t 3 ++ ['Z']))))))) := by
    simp [toText, timestamp]
  have seconds : (t.date.dayNumber - epochDay) * 86400 + (t.secondOfDay : Int) - 0 = t.seconds := by
    rw [number, secondOfDay]
    omega
  simp only [ofText?, chars, bind, Option.bind, date?_written valid year.1 year.2, separator?,
    time?_written clock millis, offset?, seconds, ofParts?, t.bounded, dif_pos]

theorem ofText?_toText {t : Instant} (millis : t.isWholeMillis = true) (year : t.InReadableYear) :
    ofText? t.toText = some t.shown := by
  rw [← toText_shown]
  exact ofText?_toText_of_onClock t.shown_onClock (t.isWholeMillis_shown.trans millis)
    (inReadableYear_shown.mpr year)

/-- A date starts with a digit. -/
theorem date?_foreign {c : Char} (foreign : c.isDigit = false) (rest : List Char) :
    date? (c :: rest) = none := by
  have unread : fixedDigits? 4 (c :: rest) = none := by
    simp [fixedDigits?, Numeral.natural?, foreign]
  simp [date?, unread, bind, Option.bind]

/-- A year of other than four digits has a sign. -/
theorem yearText_signed {year : Int} (outside : ¬(0 ≤ year ∧ year ≤ 9999)) :
    ∃ c rest, yearText year = c :: rest ∧ c.isDigit = false := by
  rw [yearText]
  split
  · exact ⟨'-', _, rfl, rfl⟩
  · rw [if_pos (by omega)]
    exact ⟨'+', _, rfl, rfl⟩

theorem ofText?_toText_of_not_inReadableYear {t : Instant} (year : ¬t.InReadableYear) :
    ofText? t.toText = none := by
  obtain ⟨c, rest, signed, foreign⟩ := yearText_signed year
  have chars : ∃ behind, t.toText.toList = c :: behind := by
    simp [toText, timestamp, signed]
  obtain ⟨behind, chars⟩ := chars
  simp [ofText?, chars, date?_foreign foreign]

theorem fraction?_lt {nanos : Nat} (read : fraction? text = some (nanos, rest)) :
    nanos < 1000000000 := by
  unfold fraction? at read
  split at read
  · rename_i row
    dsimp only at read
    split at read
    · contradiction
    · cases read
      refine Nat.lt_of_lt_of_le (Numeral.ofDigitChars_lt _ fun c member => ?_)
        (Nat.pow_le_pow_right (by decide) (List.length_take_le 9 _))
      rcases List.mem_append.mp (List.mem_of_mem_take member) with digit | zero
      · exact List.all_eq_true.mp List.all_takeWhile c digit
      · rw [List.eq_of_mem_replicate zero]
        rfl
  · cases read
    decide

theorem time?_onClock {nanos : Nat} (read : time? text = some (second, nanos, rest)) :
    nanos < 1000000000 ∨ nanos < 2000000000 ∧ second % 60 = 59 := by
  simp only [time?, Option.bind_eq_bind, Option.bind_eq_some_iff] at read
  obtain ⟨⟨hour, _⟩, _, _, _, ⟨minute, _⟩, _, _, _, ⟨whole, _⟩, _, ⟨part, _⟩, fraction, read⟩ :=
    read
  have small := fraction?_lt fraction
  split at read
  · contradiction
  · split at read
    · cases read
      omega
    · cases read
      exact .inl small

/-- Offsets are whole minutes. -/
theorem offset?_minutes (read : offset? text = some ahead) : ahead % 60 = 0 := by
  have minutes : ∀ digits s, offsetSeconds? digits = some s → s % 60 = 0 := by
    intro digits s read
    simp only [offsetSeconds?, Option.bind_eq_bind, Option.bind_eq_some_iff] at read
    obtain ⟨⟨hour, _⟩, _, _, _, ⟨minute, _⟩, _, read⟩ := read
    split at read
    · cases read
      omega
    · contradiction
  unfold offset? at read
  split at read
  · cases read
    rfl
  · cases read
    rfl
  · exact minutes _ _ read
  · obtain ⟨s, behind, rfl⟩ := Option.map_eq_some_iff.mp read
    have := minutes _ _ behind
    omega
  · obtain ⟨s, behind, rfl⟩ := Option.map_eq_some_iff.mp read
    have := minutes _ _ behind
    omega
  · contradiction

/-- Timestamps are written by clocks: second 60 is the last one of a minute, with any offset. -/
theorem ofText?_onClock {text : String} {t : Instant} (read : ofText? text = some t) :
    t.OnClock := by
  simp only [ofText?, Option.bind_eq_bind, Option.bind_eq_some_iff, ofParts?] at read
  obtain ⟨⟨date, _⟩, _, _, _, ⟨second, nanos, _⟩, time, ahead, offset, read⟩ := read
  have minutes := offset?_minutes offset
  have clock := time?_onClock time
  split at read
  · cases read
    rw [OnClock]
    dsimp only
    omega
  · contradiction

/-- An instant that is kept to the millisecond is on a whole one of the same second. -/
theorem truncateToMillis_isWholeMillis (t : Instant) : t.truncateToMillis.isWholeMillis = true := by
  simp only [isWholeMillis, truncateToMillis, beq_iff_eq]
  omega

theorem inReadableYear_truncateToMillis (t : Instant) :
    t.truncateToMillis.InReadableYear ↔ t.InReadableYear :=
  Iff.rfl

theorem onClock_truncateToMillis (t : Instant) : t.truncateToMillis.OnClock ↔ t.OnClock := by
  rw [OnClock, OnClock, truncateToMillis]
  dsimp only
  omega

end ItemSchema.Instant
