import ItemSchema.Proofs.Codec.RoundTrip

/-! Dates that are written and read back. Encoding asks of a date only that it is on a whole
millisecond, and writes every year. Decoding reads years of four digits, so the instants of all
other years are stored and can never be read again. It reads what clocks show, so instants in leap
seconds that are not at the end of a minute come back as other ones. -/
namespace ItemSchema

/-- The instant of a date or, to the nanosecond, of the timestamp of one, whatever its offset. -/
def Value.instant? : Value → Option Instant
  | .date t => some t
  | .string s => Instant.ofText? s
  | _ => none

/-- What the text that was written for an instant is read as. -/
def rereadInstant (q : Path) (t : Instant) : Except Error (Option Value) :=
  if t.InReadableYear then .ok (some (.date t.shown))
  else .error (.typeMismatch (.path q) .timestamp (.text t.toText))

theorem encodeDate_ok_iff :
    encodeDate p t = .ok w ↔ t.isWholeMillis = true ∧ w = .s t.toText := by
  rw [encodeDate]
  split <;> simp [*, @eq_comm _ w]

theorem encodeScalar_date_ok_iff : encodeScalar p .date v = .ok w ↔
    ∃ t, v.instant? = some t ∧ t.isWholeMillis = true ∧ w = .s t.toText := by
  cases v with
  | date t => simp [encodeScalar, Value.instant?, encodeDate_ok_iff]
  | string s =>
    cases read : Instant.ofText? s with
    | none => simp [encodeScalar, Value.instant?, read]
    | some t => simp [encodeScalar, Value.instant?, read, encodeDate_ok_iff]
  | _ => simp [encodeScalar, Value.instant?, mismatch]

/-- A date attribute takes null and every instant on a whole millisecond. -/
theorem encodeAt_date_ok_iff : encodeAt p (.scalar .date) v = .ok w ↔
    v = .null ∧ w = .null ∨
      ∃ t, v.instant? = some t ∧ t.isWholeMillis = true ∧ w = .s t.toText := by
  by_cases null : v = .null
  · subst null
    simp [encodeAt, Value.instant?, @eq_comm _ w]
  · have flat : encodeAt p (.scalar .date) v = encodeScalar p .date v := by
      cases v <;> first | contradiction | simp [encodeAt, encodeFlat]
    simp [flat, encodeScalar_date_ok_iff, null]

/-- The text that a date was stored as is a timestamp only in a year of four digits. -/
theorem decodeAt_toText {t : Instant} (millis : t.isWholeMillis = true) (fill : Bool) (q : Path) :
    decodeAt ⟨.strict, fill⟩ q (.scalar .date) (some (.s t.toText)) = rereadInstant q t := by
  rw [decodeAt_scalar rfl (by simp [Wire.tag]), rereadInstant]
  split
  · rename_i year
    simp [decodeScalar, Instant.ofText?_toText millis year]
  · rename_i year
    simp [decodeScalar, Instant.ofText?_toText_of_not_inReadableYear year]

theorem rereadInstant_ok_iff :
    rereadInstant q t = .ok (some v) ↔ v = .date t.shown ∧ t.InReadableYear := by
  rw [rereadInstant]
  split <;> simp [*, @eq_comm _ v]

theorem rereadInstant_same_iff :
    rereadInstant q t = .ok (some (.date t)) ↔ t.InReadableYear ∧ t.OnClock := by
  rw [rereadInstant_ok_iff, Value.date.injEq, eq_comm, Instant.shown_eq_iff, and_comm]

/-- A date attribute takes null and whatever is an instant on a whole millisecond, be it a leap
second or a timestamp with an offset. What it takes reads back strictly as what clocks show at the
instant, if the year in universal time has four digits; in every other year the stored text is an
error at its path, in whole items and in parts. So it reads back as the same instant if and only if
the year has four digits and clocks can show the instant, as they can for every timestamp. A date
made from an instant is always taken. -/
theorem encodeAt_date_reread (fill : Bool) (p q : Path) (v : Value) :
    ((∃ w, encodeAt p (.scalar .date) v = .ok w) ↔
      v = .null ∨ ∃ t, v.instant? = some t ∧ t.isWholeMillis = true) ∧
    (∀ w, encodeAt p (.scalar .date) v = .ok w →
      decodeAt ⟨.strict, fill⟩ q (.scalar .date) (some w) =
        match v.instant? with
        | none => .ok (some .null)
        | some t => rereadInstant q t) ∧
    (∀ w t, encodeAt p (.scalar .date) v = .ok w → v.instant? = some t →
      (decodeAt ⟨.strict, fill⟩ q (.scalar .date) (some w) = .ok (some (.date t)) ↔
        t.InReadableYear ∧ t.OnClock) ∧
      ∀ s, v = .string s → t.OnClock) ∧
    ∀ t, ∃ w, encodeAt p (.scalar .date) (.ofInstant t) = .ok w ∧
      (decodeAt ⟨.strict, fill⟩ q (.scalar .date) (some w) = .ok (some (.ofInstant t)) ↔
        t.InReadableYear ∧ t.OnClock) := by
  have reread : ∀ w, encodeAt p (.scalar .date) v = .ok w →
      decodeAt ⟨.strict, fill⟩ q (.scalar .date) (some w) =
        match v.instant? with
        | none => .ok (some .null)
        | some t => rereadInstant q t := by
    intro w encoded
    obtain ⟨rfl, rfl⟩ | ⟨t, given, millis, rfl⟩ := encodeAt_date_ok_iff.mp encoded
    · rfl
    · rw [given]
      exact decodeAt_toText millis fill q
  refine ⟨?_, reread, ?_, ?_⟩
  · constructor
    · rintro ⟨w, encoded⟩
      obtain ⟨null, _⟩ | ⟨t, given, millis, _⟩ := encodeAt_date_ok_iff.mp encoded
      · exact .inl null
      · exact .inr ⟨t, given, millis⟩
    · rintro (null | ⟨t, given, millis⟩)
      · exact ⟨.null, encodeAt_date_ok_iff.mpr (.inl ⟨null, rfl⟩)⟩
      · exact ⟨.s t.toText, encodeAt_date_ok_iff.mpr (.inr ⟨t, given, millis, rfl⟩)⟩
  · intro w t encoded given
    constructor
    · rw [reread w encoded, given]
      exact rereadInstant_same_iff
    · rintro s rfl
      exact Instant.ofText?_onClock given
  · intro t
    have millis := t.truncateToMillis_isWholeMillis
    refine ⟨.s t.truncateToMillis.toText, ?_, ?_⟩
    · exact encodeAt_date_ok_iff.mpr (.inr ⟨_, rfl, millis, rfl⟩)
    · rw [decodeAt_toText millis, Value.ofInstant, rereadInstant_same_iff,
        Instant.inReadableYear_truncateToMillis, Instant.onClock_truncateToMillis]

/-- The instant at which a second begins. -/
def Instant.ofSeconds (seconds : Int) : Instant where
  seconds := seconds
  nanos := 0
  bounded := Nat.succ_pos _

namespace Almanac

/-- Half a leap second before 2017, which is one hour later where the timestamp is from. -/
def leapSecond : Instant where
  seconds := 1483228799
  nanos := 1500000000
  bounded := by decide

theorem leapSecond_reread :
    encodeAt [] (.scalar .date) (.string "2017-01-01T00:59:60.500+01:00") =
        .ok (.s "2016-12-31T23:59:60.500Z") ∧
      decodeAt .whole [] (.scalar .date) (some (.s "2016-12-31T23:59:60.500Z")) =
        .ok (some (.date leapSecond)) := by
  have given : Instant.ofText? "2017-01-01T00:59:60.500+01:00" = some leapSecond := by decide
  have encoded : encodeAt [] (.scalar .date) (.string "2017-01-01T00:59:60.500+01:00") =
      .ok (.s "2016-12-31T23:59:60.500Z") :=
    encodeAt_date_ok_iff.mpr (.inr ⟨leapSecond, given, by rfl, by rfl⟩)
  have reread := (encodeAt_date_reread true [] [] (.string _)).2.1 _ encoded
  rw [Value.instant?, given] at reread
  exact ⟨encoded, reread.trans (rereadInstant_same_iff.mpr (by decide))⟩

/-- The first second of 10000, which is the last hour of 9999 further west. -/
def lateSecond : Instant :=
  .ofSeconds 253402304399

theorem lateSecond_lost :
    encodeAt [] (.scalar .date) (.string "9999-12-31T23:59:59-01:00") =
        .ok (.s "+10000-01-01T00:59:59.000Z") ∧
      decodeAt .whole [] (.scalar .date) (some (.s "+10000-01-01T00:59:59.000Z")) =
        .error (.typeMismatch (.path []) .timestamp (.text "+10000-01-01T00:59:59.000Z")) := by
  have given : Instant.ofText? "9999-12-31T23:59:59-01:00" = some lateSecond := by decide
  have text : lateSecond.toText = "+10000-01-01T00:59:59.000Z" := by rfl
  rw [← text]
  refine ⟨encodeAt_date_ok_iff.mpr (.inr ⟨_, given, by rfl, rfl⟩), ?_⟩
  exact (decodeAt_toText (by rfl) true []).trans (if_neg (by decide))

end Almanac

end ItemSchema
