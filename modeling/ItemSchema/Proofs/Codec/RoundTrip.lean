import ItemSchema.Codec.Decoding
import ItemSchema.Proofs.Codec.Encoding
import ItemSchema.Proofs.Codec.NormalForm
import ItemSchema.Proofs.Instant.Text
import ItemSchema.Proofs.Numeral.Int128
import ItemSchema.Proofs.Schema.WellFormed
import Mathlib

/-! An item that was encoded decodes to its normal form. Encoding walks the value and decoding the
schema; they meet in the look-ups by name. -/
namespace ItemSchema

/-- Whole items, strictly. -/
def Decoding.whole : Decoding :=
  ⟨.strict, true⟩

theorem distinctBy_members [DecidableEq κ] (key : α → κ) (toValue : α → Value)
    (same : ∀ x y, (toValue x).sameMember (toValue y) = decide (key x = key y))
    (seen : List κ) (members : List α) :
    (distinctBy key seen members).map toValue =
      Value.distinctMembers ((members.filter fun x => key x ∉ seen).map toValue) := by
  induction members generalizing seen with
  | nil => rfl
  | cons x rest ih =>
    rw [distinctBy]
    by_cases known : key x ∈ seen
    · simp [known, ih]
    · rw [if_neg known, List.filter_cons_of_pos (by simpa using known), List.map_cons, ih,
        List.map_cons, Value.distinctMembers, Value.distinctMembers, List.eraseDupsBy_cons,
        List.filter_map, List.filter_filter]
      congr 3
      apply List.filter_congr
      intro y _
      simp [same]

section

variable {d : Decoding} {p q : Path} {schema : Schema} {entries : List (String × Wire)}

/-- If each attribute of a schema decodes, so do the fields. -/
theorem decodeFields_of_each {g : String → Attribute → Option Value}
    (each : ∀ field ∈ schema, decodeAt d (p ++ [.field field.1]) field.2
      (Record.find? field.1 entries) = .ok (g field.1 field.2)) :
    decodeFields d p entries schema = .ok (Record.select g schema) := by
  induction schema with
  | nil => rfl
  | cons field rest ih =>
    obtain ⟨name, a⟩ := field
    obtain ⟨here, later⟩ := List.forall_mem_cons.mp each
    rw [decodeFields, here, ih later]
    cases chosen : g name a <;> simp [chosen, Record.select, bind, Except.bind]

theorem decodeItems_of_each {decode : Nat → Wire → Except Error (Option Value)} {g : Value → Value}
    (encoded : encodeItems p item index items = .ok ws)
    (each : ∀ v ∈ items, ∀ i j w, encodeAt (p ++ [.index i]) item v = .ok w →
      decode j w = .ok (some (g v))) (start : Nat) :
    decodeItems decode start ws = .ok (items.map g) := by
  induction items generalizing index start ws with
  | nil =>
    cases encoded
    rfl
  | cons v rest ih =>
    obtain ⟨here, later⟩ := List.forall_mem_cons.mp each
    simp only [encodeItems, bind_eq_ok, except_pure, Except.ok.injEq] at encoded
    obtain ⟨w, first, others, following, rfl⟩ := encoded
    rw [decodeItems, here _ start _ first, ih following later]
    rfl

theorem decodeAt_scalar (typed : a.kind.scalarType? = some of) (present : w.tag ≠ .null) :
    decodeAt d p a (some w) = some <$> decodeScalar d.mode p of w := by
  have notNull : w ≠ .null := by
    rintro rfl
    exact present rfl
  cases a with
  | partitionKey k | sortKey k | scalar k =>
    cases typed
    rw [decodeAt]
    exact notNull
  | _ => cases typed

end

/-- Only a date changes its form, when it was given as a timestamp. -/
theorem decodeScalar_encodeScalar (encoded : encodeScalar p of v = .ok w)
    (readable : ∀ t ∈ v.dates (.scalar of), t.InReadableYear ∧ t.OnClock) (q : Path) :
    w.tag ≠ .null ∧ decodeScalar .strict q of w = .ok (v.normal (.scalar of)).dropZeroSigns := by
  cases of with
  | string | number | bigint | boolean =>
    cases v <;> simp [encodeScalar, mismatch] at encoded
    subst encoded
    simp [Wire.tag, decodeScalar, decodeNumber, Decimal.ofText?_toText, Int128.ofText?_toText,
      Value.normal, Value.dropZeroSigns]
  | date =>
    have written : ∀ {t : Instant}, encodeDate p t = .ok w → t.InReadableYear ∧ t.OnClock →
        w.tag ≠ .null ∧ decodeScalar .strict q .date w = .ok (.date t) := by
      intro t encoded readable
      obtain ⟨year, clock⟩ := readable
      rw [encodeDate] at encoded
      split at encoded
      · rename_i millis
        cases encoded
        simp [Wire.tag, decodeScalar, Instant.ofText?_toText_of_onClock clock millis year]
      · contradiction
    cases v with
    | date t =>
      exact written encoded (readable t (by simp [Value.dates]))
    | string s =>
      cases read : Instant.ofText? s with
      | none => simp [encodeScalar, read] at encoded
      | some t =>
        have date := written (by simpa [encodeScalar, read] using encoded)
          (readable t (by simp [Value.dates, read]))
        simpa [Value.normal, read, Value.dropZeroSigns] using date
    | _ => simp [encodeScalar, mismatch] at encoded

theorem decodeSet_encodeSet (encoded : encodeSet p of v = .ok w) (q : Path) :
    w.tag ≠ .null ∧ decodeSet .strict q of w = .ok (v.normal (.set of)).dropZeroSigns := by
  obtain ⟨members, given, _, encoded⟩ := encodeSet_ok_iff.mp encoded
  have normal : (v.normal (.set of)).dropZeroSigns =
      .set ((Value.distinctMembers members).map Value.dropZeroSigns) := by
    rw [← Value.dropItemSigns_eq_map]
    rcases given with rfl | rfl <;> rfl
  rw [normal]
  replace encoded := encodeMembers_ok_iff.mp encoded
  cases of with
  | string =>
    obtain ⟨texts, rfl, rfl⟩ := encoded
    have kept := distinctBy_members id Value.string
      (by simp [Value.sameMember]) [] texts
    simp only [List.not_mem_nil, not_false_eq_true, decide_true, List.filter_true] at kept
    simp [Wire.tag, decodeSet, ← kept, Value.dropZeroSigns]
  | number =>
    obtain ⟨numbers, rfl, rfl⟩ := encoded
    have kept := distinctBy_members Decimal.normalize Value.number
      (by simp [Value.sameMember, Decimal.normalize_eq_iff]) [] numbers
    simp only [List.not_mem_nil, not_false_eq_true, decide_true, List.filter_true] at kept
    have read : ((distinctBy Decimal.normalize [] numbers).map Decimal.toText).mapM
        (decodeNumber .strict q) =
        .ok ((distinctBy Decimal.normalize [] numbers).map fun d => .number d.dropZeroSign) := by
      rw [List.mapM_map, mapM_eq_ok_of_map]
      intro d _
      simp [decodeNumber, Decimal.ofText?_toText]
    simp [Wire.tag, decodeSet, read, ← kept, Value.dropZeroSigns]
  | binary =>
    obtain ⟨binaries, rfl, rfl⟩ := encoded
    have kept := distinctBy_members id Value.binary
      (by simp [Value.sameMember]) [] binaries
    simp only [List.not_mem_nil, not_false_eq_true, decide_true, List.filter_true] at kept
    simp [Wire.tag, decodeSet, ← kept, Value.dropZeroSigns]

theorem absent_whole (a : Attribute) : Decoding.whole.absent a = a.emptyContainer? := by
  cases a <;> rfl

/-- If the value of each field comes back in its normal form, so does the record. -/
theorem decodeFields_encodeFields (level : schema.Level topLevel)
    (encoded : encodeFields p schema fields = .ok entries)
    (each : ∀ field ∈ fields, ∀ a w, schema.get? field.1 = some a →
      encodeAt (p ++ [.field field.1]) a field.2 = .ok w →
      decodeAt .whole (q ++ [.field field.1]) a (some w) =
        .ok (some (field.2.normal a).dropZeroSigns)) :
    Record.ofList <$> decodeFields .whole q entries schema =
      .ok (Value.dropFieldSigns (Value.normalFields schema fields)) := by
  let g : String → Attribute → Option Value := fun name a =>
    ((Record.find? name fields).map fun v => (v.normal a).dropZeroSigns).or a.emptyContainer?
  have decoded : decodeFields .whole q entries schema = .ok (Record.select g schema) := by
    apply decodeFields_of_each
    intro (name, a) member
    have found : schema.get? name = some a := Record.find?_of_mem level.distinct member
    have look := find?_encodeFields encoded name
    cases given : Record.find? name fields with
    | none =>
      simp only [given] at look
      rw [look, decodeAt, absent_whole]
      simp [g, given]
    | some v =>
      simp only [given] at look
      obtain ⟨b, w, known, content, present⟩ := look
      obtain rfl : b = a := Option.some.inj (known.symm.trans found)
      rw [present, each (name, v) (Record.mem_of_find? given) b w found content]
      simp [g, given]
  rw [decoded, map_eq_ok]
  refine ⟨_, rfl, Record.Sorted.ext (Record.ofList_sorted _)
    (Value.dropFieldSigns_sorted (Value.normalFields_sorted schema fields)) fun name => ?_⟩
  rw [Record.find?_ofList_select g level.distinct, Value.find?_dropFieldSigns,
    Value.find?_normalFields level.distinct (encodeFields_known encoded), Schema.get?]
  cases Record.find? name schema with
  | none => rfl
  | some a =>
    cases given : Record.find? name fields <;>
      simp [g, given, Value.emptyContainer?_dropZeroSigns]

theorem decodeAt_encodeAt (sound : a.isKey = true ∨ a.Nested) (encoded : encodeAt p a v = .ok w)
    (readable : ∀ t ∈ v.dates a, t.InReadableYear ∧ t.OnClock) (q : Path) :
    decodeAt .whole q a (some w) = .ok (some (v.normal a).dropZeroSigns) := by
  induction v using Value.contents_induction generalizing a p q w with
  | step v ih =>
    cases encodesTo_of_ok encoded with
    | null notKey =>
      rw [Value.normal_null, decodeAt]
      rfl
    | @scalar _ of _ _ typed content =>
      obtain ⟨normal, dates⟩ := Value.normal_of_scalarType typed v
      rw [dates] at readable
      obtain ⟨present, decoded⟩ := decodeScalar_encodeScalar content readable q
      rw [decodeAt_scalar typed present, map_eq_ok, normal]
      exact ⟨_, decoded, rfl⟩
    | set members =>
      obtain ⟨present, decoded⟩ := decodeSet_encodeSet members q
      rw [decodeAt, map_eq_ok]
      · exact ⟨_, decoded, rfl⟩
      · rintro rfl
        exact present rfl
    | @list item values ws items =>
      have nested : item.Nested := by
        rcases sound with key | nested
        · contradiction
        · cases nested with
          | list nested => exact nested
      have decoded : decodeItems (fun i w => decodeAt .whole (q ++ [.index i]) item (some w)) 0 ws =
          .ok (values.map fun v => (v.normal item).dropZeroSigns) :=
        decodeItems_of_each items (fun v member i j w content =>
          ih v member (.inr nested) content
            (fun t date => readable t (Value.mem_itemDates member date)) _) 0
      rw [decodeAt, map_eq_ok]
      refine ⟨_, decoded, ?_⟩
      simp [Value.normal, Value.dropZeroSigns, Value.normalItems_eq_map,
        Value.dropItemSigns_eq_map]
    | @map schema fields ws entries =>
      have nested : (Attribute.map schema).Nested := by
        rcases sound with key | nested
        · contradiction
        · exact nested
      have level := (Schema.level_nested schema).mpr nested
      have decoded := decodeFields_encodeFields (q := q) level entries
        fun field member a w found content => by
          have sound := level.below _ (Record.mem_of_find? found)
          exact ih field.2 (Value.mem_contents_map member) (sound.imp And.right id) content
            (fun t date => readable t (Value.mem_fieldDates member found date)) _
      obtain ⟨fields', decoded, record⟩ := map_eq_ok.mp decoded
      rw [decodeAt, decoded]
      simp [bind, Except.bind, record, Value.normal, Value.dropZeroSigns]

/-- What was encoded can be read, and comes back in its normal form, as long as timestamps keep the
dates: in years of four digits, and not in leap seconds off the clock. Only the sign of a zero gets
lost, since decimal texts do not keep it. -/
theorem Schema.decodeItem_encodeItem {schema : Schema} (accepted : schema.Accepted)
    (encoded : schema.encodeItem v = .ok item)
    (years : ∀ t ∈ v.dates (.map schema), t.InReadableYear)
    (clock : ∀ t ∈ v.dates (.map schema), t.OnClock) :
    schema.decodeItem item .strict = .ok (v.normal (.map schema)).dropZeroSigns ∧
      (v.dropZeroSigns = v → schema.decodeItem item .strict = .ok (v.normal (.map schema))) := by
  have readable : ∀ t ∈ v.dates (.map schema), t.InReadableYear ∧ t.OnClock :=
    fun t date => ⟨years t date, clock t date⟩
  have decoded : schema.decodeItem item .strict = .ok (v.normal (.map schema)).dropZeroSigns := by
    cases v with
    | map fields =>
      have level := accepted.wellFormed.toLevel
      have read := decodeFields_encodeFields (q := []) level encoded
        fun _ member a w found content =>
          decodeAt_encodeAt ((level.below _ (Record.mem_of_find? found)).imp And.right id) content
            (fun t date => readable t (Value.mem_fieldDates member found date)) _
      obtain ⟨fields', decoded, record⟩ := map_eq_ok.mp read
      have whole : Decoding.whole = ⟨.strict, true⟩ := rfl
      rw [decodeItem, decodeWith, ← whole, decoded]
      simp [bind, Except.bind, record, Value.normal, Value.dropZeroSigns]
    | _ => simp [encodeItem, mismatch] at encoded
  constructor
  · exact decoded
  · intro unsigned
    rw [decoded, Value.dropZeroSigns_normal unsigned]

namespace Wallet

def card : Schema :=
  [("digits", .scalar .string), ("owners", .list (some (.scalar .string)))]

def schema : Schema :=
  [("id", .partitionKey .string), ("limits", .set .number), ("opened", .scalar .date),
    ("cards", .list (some (.map card))), ("main", .map card), ("note", .scalar .string)]

/-- A set with one number at two scales, a date as a timestamp, and no card but the first. -/
def given : Value :=
  .map [("cards", .list [.map [("digits", .string "1234")]]), ("id", .string "w"),
    ("limits", .list [.number ⟨false, 1, 0, by decide, by decide⟩,
      .number ⟨false, 10, 1, by decide, by decide⟩]),
    ("note", .null), ("opened", .string "2024-01-31T09:15:00+01:00")]

def stored : Value :=
  .map [("cards", .list [.map [("digits", .string "1234"), ("owners", .list [])]]),
    ("id", .string "w"), ("limits", .set [.number ⟨false, 1, 0, by decide, by decide⟩]),
    ("main", .map []), ("note", .null), ("opened", .date ⟨1706688900, 0, by decide⟩)]

theorem decodeItem_encodeItem_given :
    ∃ item, schema.Accepted ∧ schema.encodeItem given = .ok item ∧
      (∀ t ∈ given.dates (.map schema), t.InReadableYear) ∧
      (∀ t ∈ given.dates (.map schema), t.OnClock) ∧ given.dropZeroSigns = given ∧
      schema.decodeItem item .strict = .ok stored := by
  have accepted : schema.Accepted := .inr ⟨schema, rfl⟩
  have years : ∀ t ∈ given.dates (.map schema), t.InReadableYear := by decide
  have clock : ∀ t ∈ given.dates (.map schema), t.OnClock := by decide
  have normal : given.normal (.map schema) = stored := by cbv
  obtain ⟨item, encoded⟩ : ∃ item, schema.encodeItem given = .ok item := ⟨_, rfl⟩
  obtain ⟨_, decoded⟩ := Schema.decodeItem_encodeItem accepted encoded years clock
  rw [normal] at decoded
  exact ⟨item, accepted, encoded, years, clock, rfl, decoded rfl⟩

end Wallet

end ItemSchema
