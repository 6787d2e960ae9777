import ItemSchema.Expression.Comparison
import ItemSchema.Proofs.Codec.Date
import ItemSchema.Proofs.Instant.Order

/-! Dates that are compared where they are stored. The store compares their texts byte by byte,
which is to compare what clocks show, as long as the years have four digits. For instants on the
clock that is to compare the instants. A leap second that is not at the end of a minute is stored as
the second that follows, and loses its place before it. -/
namespace ItemSchema

/-- Whether a comparator holds of two things that are in the given order. -/
def Comparator.holds : Comparator → Ordering → Bool
  | .eq => Ordering.isEq
  | .ne => Ordering.isNe
  | .lt => Ordering.isLT
  | .le => Ordering.isLE
  | .gt => Ordering.isGT
  | .ge => Ordering.isGE

/-- What the store answers when it compares a text that it has with texts. -/
def Operator.holdsOfText (stored : String) : Operator → List Wire → Bool
  | .compare comparator, [.s text] => comparator.holds (Text.byteOrder stored text)
  | .between, [.s low, .s high] =>
    (Text.byteOrder stored low).isGE && (Text.byteOrder stored high).isLE
  | _, _ => false

/-- A value that a date attribute takes, for an instant in a year of four digits. -/
structure StoresInstant (p : Path) (v : Value) (t : Instant) (w : Wire) : Prop where
  encoded : encodeAt p (.scalar .date) v = .ok w
  instant : v.instant? = some t
  year : t.InReadableYear

namespace StoresInstant

variable {p q : Path} {u v x : Value} {s t r : Instant} {w y z : Wire}

theorem text (stores : StoresInstant p v t w) : t.isWholeMillis = true ∧ w = .s t.toText := by
  rcases encodeAt_date_ok_iff.mp stores.encoded with ⟨rfl, _⟩ | ⟨u, instant, millis, rfl⟩
  · have := stores.instant
    contradiction
  · cases instant.symm.trans stores.instant
    exact ⟨millis, rfl⟩

/-- The path of a date only matters where it is not taken. -/
theorem at_path (stores : StoresInstant p v t w) (q : Path) : StoresInstant q v t w where
  encoded := encodeAt_date_ok_iff.mpr (encodeAt_date_ok_iff.mp stores.encoded)
  instant := stores.instant
  year := stores.year

theorem order (stores : StoresInstant p u s w) (others : StoresInstant q v t y) :
    Text.byteOrder s.toText t.toText = s.shown.order t.shown :=
  Instant.byteOrder_toText stores.year others.year stores.text.1 others.text.1

theorem onClock {given : String} (stores : StoresInstant p (.string given) t w) : t.OnClock :=
  Instant.ofText?_onClock stores.instant

end StoresInstant

/-- Stored dates are ordered as what clocks show at their instants: as texts of one length, compared
byte by byte, and therefore in every comparison that the store makes. That is the order of the
instants themselves if clocks can show these, as they can for every date that is given as a
timestamp. -/
theorem encodeAt_date_order {p q : Path} {u v : Value} {s t : Instant} {w y : Wire}
    (stores : StoresInstant p u s w) (others : StoresInstant q v t y) :
    ∃ text other, w = .s text ∧ y = .s other ∧
      (Text.utf8 text).length = (Text.utf8 other).length ∧
      Text.byteOrder text other = s.shown.order t.shown ∧ (text = other ↔ s.shown = t.shown) ∧
      (∀ r comparator, encodeOperands r (.scalar .date) (.compare comparator) v = .ok [y] ∧
        (Operator.compare comparator).holdsOfText text [y] =
          comparator.holds (s.shown.order t.shown)) ∧
      (∀ r x m z bounds, StoresInstant r x m z → bounds.elements? = some [v, x] →
        encodeOperands r (.scalar .date) .between bounds = .ok [y, z] ∧
          Operator.between.holdsOfText text [y, z] =
            ((s.shown.order t.shown).isGE && (s.shown.order m.shown).isLE)) ∧
      (s.OnClock → t.OnClock →
        Text.byteOrder text other = s.order t ∧ (text = other ↔ s = t)) ∧
      ∀ given, u = .string given → s.OnClock := by
  obtain ⟨_, rfl⟩ := stores.text
  obtain ⟨_, rfl⟩ := others.text
  have order := stores.order others
  have same : s.toText = t.toText ↔ s.shown = t.shown := by
    rw [← Text.byteOrder_eq_iff, order, Instant.order_eq_iff]
  refine ⟨_, _, rfl, rfl, ?_, order, same, fun r comparator => ⟨?_, ?_⟩, ?_, ?_, ?_⟩
  · rw [Instant.utf8_toText_length stores.year, Instant.utf8_toText_length others.year]
  · rw [encodeOperands, (others.at_path r).encoded]
    rfl
  · rw [Operator.holdsOfText, order]
  · intro r x m z bounds last given
    obtain ⟨_, rfl⟩ := last.text
    constructor
    · simp [encodeOperands, encodeBounds, given, (others.at_path r).encoded, last.encoded]
    · rw [Operator.holdsOfText, order, stores.order last]
  · intro clock otherClock
    rw [Instant.shown_eq_iff.mpr clock, Instant.shown_eq_iff.mpr otherClock] at order same
    exact ⟨order, same⟩
  · rintro given rfl
    exact stores.onClock

namespace Vigil

/-- The last millisecond before a leap second. -/
def eve : Instant where
  seconds := 1483228799
  nanos := 999000000
  bounded := by decide

/-- A quarter of the leap second. -/
def leap : Instant where
  seconds := 1483228799
  nanos := 1250000000
  bounded := by decide

/-- The first second behind it. -/
def midnight : Instant :=
  .ofSeconds 1483228800

theorem leap_between :
    encodeAt [] (.scalar .date) (.string "2017-01-01T00:59:60.25+01:00") =
      .ok (.s "2016-12-31T23:59:60.250Z") ∧
    encodeAt [] (.scalar .date) (.string "2016-12-31T18:59:59.999-05:00") =
      .ok (.s "2016-12-31T23:59:59.999Z") ∧
    encodeAt [] (.scalar .date) (.date midnight) = .ok (.s "2017-01-01T00:00:00.000Z") ∧
    Text.byteOrder "2016-12-31T23:59:60.250Z" "2016-12-31T23:59:59.999Z" = .gt ∧
    Operator.between.holdsOfText "2016-12-31T23:59:60.250Z"
      [.s "2016-12-31T23:59:59.999Z", .s "2017-01-01T00:00:00.000Z"] = true := by
  have here : StoresInstant [] (.string "2017-01-01T00:59:60.25+01:00") leap
      (.s "2016-12-31T23:59:60.250Z") := by
    have given : Instant.ofText? "2017-01-01T00:59:60.25+01:00" = some leap := by decide
    exact ⟨encodeAt_date_ok_iff.mpr (.inr ⟨leap, given, by rfl, by rfl⟩), given, by decide⟩
  have before : StoresInstant [] (.string "2016-12-31T18:59:59.999-05:00") eve
      (.s "2016-12-31T23:59:59.999Z") := by
    have given : Instant.ofText? "2016-12-31T18:59:59.999-05:00" = some eve := by decide
    exact ⟨encodeAt_date_ok_iff.mpr (.inr ⟨eve, given, by rfl, by rfl⟩), given, by decide⟩
  have behind : StoresInstant [] (.date midnight) midnight (.s "2017-01-01T00:00:00.000Z") :=
    ⟨encodeAt_date_ok_iff.mpr (.inr ⟨midnight, rfl, by rfl, by rfl⟩), rfl, by decide⟩
  obtain ⟨text, other, sameText, sameOther, _, order, _, _, between, _⟩ :=
    encodeAt_date_order here before
  cases sameText
  cases sameOther
  obtain ⟨_, holds⟩ := between [] _ _ _ (.list [_, _]) behind rfl
  exact ⟨here.encoded, before.encoded, behind.encoded, order, holds⟩

/-- A leap second behind the first second of 2024, with nine tenths of it gone. -/
def offClock : Instant where
  seconds := 1704067200
  nanos := 1900000000
  bounded := by decide

/-- A tenth of the second behind that one. -/
def tenth : Instant where
  seconds := 1704067201
  nanos := 100000000
  bounded := by decide

def nineTenths : Instant where
  seconds := 1704067201
  nanos := 900000000
  bounded := by decide

/-- An instant off the clock is stored above a later one, and as the same text as another later one.
A timestamp with a fraction finer than a nanosecond is stored as one that is earlier. -/
theorem offClock_disordered :
    StoresInstant [] (.date offClock) offClock (.s "2024-01-01T00:00:01.900Z") ∧
    StoresInstant [] (.date tenth) tenth (.s "2024-01-01T00:00:01.100Z") ∧
    StoresInstant [] (.date nineTenths) nineTenths (.s "2024-01-01T00:00:01.900Z") ∧
    offClock.order tenth = .lt ∧
    Text.byteOrder "2024-01-01T00:00:01.900Z" "2024-01-01T00:00:01.100Z" = .gt ∧
    offClock.order nineTenths = .lt ∧
    encodeAt [] (.scalar .date) (.string "2024-01-01T00:00:00.0000000009Z") =
      .ok (.s "2024-01-01T00:00:00.000Z") ∧
    encodeAt [] (.scalar .date) (.string "2024-01-01T00:00:00Z") =
      .ok (.s "2024-01-01T00:00:00.000Z") := by
  have stored : ∀ t : Instant, t.isWholeMillis = true → t.InReadableYear →
      StoresInstant [] (.date t) t (.s t.toText) := fun t millis year =>
    ⟨encodeAt_date_ok_iff.mpr (.inr ⟨t, rfl, millis, rfl⟩), rfl, year⟩
  have off := stored offClock (by rfl) (by decide)
  have later := stored tenth (by rfl) (by decide)
  have disordered : Text.byteOrder offClock.toText tenth.toText = .gt :=
    (off.order later).trans (by decide)
  have newYear : ∃ t, t.isWholeMillis = true ∧ t.toText = "2024-01-01T00:00:00.000Z" ∧
      Instant.ofText? "2024-01-01T00:00:00.0000000009Z" = some t ∧
      Instant.ofText? "2024-01-01T00:00:00Z" = some t :=
    ⟨.ofSeconds 1704067200, by rfl, by rfl, by decide, by decide⟩
  obtain ⟨t, millis, text, finer, plain⟩ := newYear
  refine ⟨off, later, stored nineTenths (by rfl) (by decide), by decide, disordered, by decide,
    ?_, ?_⟩
  · exact encodeAt_date_ok_iff.mpr (.inr ⟨t, finer, millis, congrArg Wire.s text.symm⟩)
  · exact encodeAt_date_ok_iff.mpr (.inr ⟨t, plain, millis, congrArg Wire.s text.symm⟩)

end Vigil

end ItemSchema
