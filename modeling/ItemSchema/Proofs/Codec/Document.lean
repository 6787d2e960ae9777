import ItemSchema.Proofs.Codec.Clock
import ItemSchema.Proofs.Codec.FirstFault
import ItemSchema.Proofs.Codec.Lenience
import ItemSchema.Proofs.Codec.RoundTrip
import ItemSchema.Proofs.Value.Json

/-! Items that travel through JSON documents. A document forgets which texts were dates and which
lists were sets, but the schema does not: what is stored for the document of a value reads like what
is stored for the value itself. -/
namespace ItemSchema

namespace Attribute

/-- Neither the attribute nor any below it is a big integer or a set of binaries, which a document
turns into something else. -/
def Plain (a : Attribute) : Prop :=
  ∀ p b, a.Leads p b → b ≠ .scalar .bigint ∧ b ≠ .set .binary

namespace Plain

theorem field (plain : (Attribute.map fields).Plain) (member : (name, a) ∈ fields) : a.Plain :=
  fun _ b leads => plain _ b (.field member leads)

theorem item {item : Attribute} (plain : (Attribute.list (some item)).Plain) : item.Plain :=
  fun _ b leads => plain _ b (.index 0 leads)

theorem scalar {a : Attribute} (plain : a.Plain) (typed : a.kind.scalarType? = some of) :
    of ≠ .bigint := by
  rintro rfl
  cases a with
  | partitionKey key | sortKey key => cases key <;> contradiction
  | scalar of =>
    cases typed
    exact (plain [] _ (.here _)).1 rfl
  | _ => contradiction

theorem set (plain : (Attribute.set of).Plain) : of ≠ .binary := by
  rintro rfl
  exact (plain [] _ (.here _)).2 rfl

end Plain

/-- Whatever fits an attribute without big integers can be put into a document. -/
theorem Admits.portable {a : Attribute} {v : Value} (admits : a.Admits v) (plain : a.Plain)
    (ordered : v.Ordered) (numbers : ∀ d ∈ v.numbers, d.IsInteger64) : v.Portable := by
  induction admits with
  | null => exact .null
  | scalar typed content =>
    cases content with
    | string | timestamp => exact .string _
    | number d => exact .number (numbers d (by simp [Value.numbers]))
    | bigint n => exact absurd rfl (plain.scalar typed)
    | boolean b => exact .bool b
    | date => exact .date _
  | @set v _ members given nonempty each =>
    have inside : ∀ u ∈ members, u.Portable := by
      intro u member
      have content : u ∈ v.contents := by
        rcases given with rfl | rfl <;> exact member
      cases each u member with
      | string s => exact .string s
      | number d =>
        exact .number (numbers d (Value.mem_numbers_of_contents content (by simp [Value.numbers])))
      | binary bytes => exact .binary bytes
    rcases given with rfl | rfl
    · exact .set inside
    · exact .list inside
  | list each ih =>
    cases ordered with
    | intro sorted below =>
      exact .list fun u member => ih u member plain.item (below u member) fun d inside =>
        numbers d (Value.mem_numbers_of_contents member inside)
  | @map fields schema known each ih =>
    cases ordered with
    | intro sorted below =>
      refine .map (sorted fields rfl) ?_
      rintro ⟨name, u⟩ member
      have content := Value.mem_contents_map member
      obtain ⟨a, found⟩ := Option.isSome_iff_exists.mp (known _ member)
      exact ih name a u found member (plain.field (Record.mem_of_find? found)) (below u content)
        fun d inside => numbers d (Value.mem_numbers_of_contents content inside)

end Attribute

namespace Value

/-- Members that are told apart in the same way are kept in the same way. -/
theorem distinctMembers_map {f : Value → Value} (members : List Value)
    (same : ∀ u ∈ members, ∀ v ∈ members, (f u).sameMember (f v) = u.sameMember v) :
    distinctMembers (members.map f) = (distinctMembers members).map f := by
  match members with
  | [] => rfl
  | first :: rest =>
    have inside : ∀ u ∈ rest, u ∈ first :: rest := fun u member => List.mem_cons_of_mem _ member
    have others : (rest.filter fun u => (f u).sameMember (f first) = false) =
        rest.filter fun u => u.sameMember first = false :=
      List.filter_congr fun u member => by rw [same u (inside u member) first List.mem_cons_self]
    have kept := distinctMembers_map (rest.filter fun u => u.sameMember first = false)
      fun u left v right => same u (inside u (List.mem_of_mem_filter left)) v
        (inside v (List.mem_of_mem_filter right))
    rw [distinctMembers] at kept
    rw [List.map_cons, distinctMembers, distinctMembers, List.eraseDupsBy_cons,
      List.eraseDupsBy_cons, List.filter_map, Function.comp_def, others, kept, List.map_cons]
    rfl
termination_by members.length
decreasing_by exact Nat.lt_succ_of_le (List.length_filter_le ..)

theorem itemDates_document {item : Attribute} {items : List Value}
    (each : ∀ u ∈ items, u.document.dates item = u.dates item) :
    itemDates item (documentItems items) = itemDates item items := by
  induction items with
  | nil => rfl
  | cons v rest ih =>
    obtain ⟨here, later⟩ := List.forall_mem_cons.mp each
    rw [documentItems, itemDates, itemDates, here, ih later]

theorem fieldDates_document {schema : Schema} {fields : List (String × Value)}
    (each : ∀ field ∈ fields, ∀ a, schema.get? field.1 = some a →
      field.2.document.dates a = field.2.dates a) :
    fieldDates schema (documentFields fields) = fieldDates schema fields := by
  induction fields with
  | nil => rfl
  | cons field rest ih =>
    obtain ⟨here, later⟩ := List.forall_mem_cons.mp each
    rw [documentFields, fieldDates, fieldDates, ih later]
    cases found : schema.get? field.1 with
    | none => rfl
    | some a => simp only [here a found]

end Value

namespace Attribute

/-- The attribute takes the document of a value for the value. -/
structure Restores (a : Attribute) (v : Value) : Prop where
  admits : a.Admits v.document
  dates : v.document.dates a = v.dates a
  normal : (v.document.normal a).reduced = (v.normal a).reduced

theorem restores_null {a : Attribute} (notKey : a.isKey = false) : a.Restores .null :=
  ⟨.null notKey, rfl, rfl⟩

theorem restores_scalar {a : Attribute} {v : Value} (typed : a.kind.scalarType? = some of)
    (content : of.Admits v) (small : of ≠ .bigint)
    (readable : ∀ t ∈ v.dates a, t.InReadableYear ∧ t.OnClock) : a.Restores v := by
  obtain ⟨normal, dates⟩ := Value.normal_of_scalarType typed v
  obtain ⟨normal', dates'⟩ := Value.normal_of_scalarType typed v.document
  rw [dates] at readable
  suffices of.Admits v.document ∧ v.document.dates (.scalar of) = v.dates (.scalar of) ∧
      (v.document.normal (.scalar of)).reduced = (v.normal (.scalar of)).reduced by
    obtain ⟨admits, sameDates, sameNormal⟩ := this
    exact ⟨.scalar typed admits, dates' ▸ dates ▸ sameDates, normal' ▸ normal ▸ sameNormal⟩
  cases content with
  | string s => exact ⟨.string s, rfl, rfl⟩
  | number d =>
    refine ⟨.number d.normalize, rfl, ?_⟩
    simp [Value.document, Value.normal, Value.reduced]
  | bigint => contradiction
  | boolean b => exact ⟨.boolean b, rfl, rfl⟩
  | @date t millis =>
    obtain ⟨year, clock⟩ := readable t (by simp [Value.dates])
    have read : Instant.ofText? t.toText = some t :=
      Instant.ofText?_toText_of_onClock clock millis year
    refine ⟨.timestamp read millis, ?_, ?_⟩
    · simp [Value.document, Value.dates, read]
    · simp [Value.document, Value.normal, read]
  | timestamp read millis => exact ⟨.timestamp read millis, rfl, rfl⟩

/-- The members of a set are told apart as before. -/
theorem restores_set {members : List Value} {v : Value}
    (given : v = .set members ∨ v = .list members) (nonempty : members ≠ [])
    (each : ∀ u ∈ members, of.Admits u) (textual : of ≠ .binary) :
    (Attribute.set of).Restores v := by
  have document : v.document = .list (members.map Value.document) := by
    rw [← Value.documentItems_eq_map]
    rcases given with rfl | rfl <;> rfl
  have dates : v.dates (.set of) = [] := by
    rcases given with rfl | rfl <;> rfl
  have normal : v.normal (.set of) = .set (Value.distinctMembers members) := by
    rcases given with rfl | rfl <;> rfl
  have admitted : ∀ u ∈ members, of.Admits u.document := by
    intro u member
    cases each u member with
    | string s => exact .string s
    | number d => exact .number d.normalize
    | binary => contradiction
  have same : ∀ u ∈ members, ∀ w ∈ members,
      u.document.sameMember w.document = u.sameMember w := by
    intro u left w right
    cases each u left with
    | string s =>
      cases each w right
      rfl
    | number d =>
      cases each w right
      simp [Value.document, Value.sameMember, Decimal.value_normalize]
    | binary => contradiction
  have reduced : ∀ u ∈ members, u.document.reduced = u.reduced := by
    intro u member
    cases each u member with
    | string s => rfl
    | number d => simp [Value.document, Value.reduced]
    | binary => contradiction
  constructor
  · rw [document]
    exact .set (.inr rfl) (by simpa using nonempty) (List.forall_mem_map.mpr admitted)
  · rw [document, dates]
    rfl
  · rw [document, normal, Value.normal, Value.distinctMembers_map _ same, Value.reduced,
      Value.reduced, Value.reducedItems_eq_map, Value.reducedItems_eq_map, List.map_map]
    exact congrArg _ (List.map_congr_left fun u member =>
      reduced u (Value.mem_of_mem_distinctMembers member))

theorem restores_list {item : Attribute} {items : List Value}
    (each : ∀ u ∈ items, item.Restores u) :
    (Attribute.list (some item)).Restores (.list items) := by
  constructor
  · rw [Value.document, Value.documentItems_eq_map]
    exact .list (List.forall_mem_map.mpr fun u member => (each u member).admits)
  · rw [Value.document, Value.dates, Value.dates]
    exact Value.itemDates_document fun u member => (each u member).dates
  · rw [Value.document, Value.normal, Value.normal, Value.reduced, Value.reduced,
      Value.documentItems_eq_map, Value.normalItems_eq_map, Value.normalItems_eq_map,
      Value.reducedItems_eq_map, Value.reducedItems_eq_map, List.map_map, List.map_map,
      List.map_map]
    exact congrArg _ (List.map_congr_left fun u member => (each u member).normal)

theorem restores_map {schema : Schema} {fields : List (String × Value)}
    (distinct : (schema.map Prod.fst).Nodup)
    (each : ∀ field ∈ fields, ∃ a, schema.get? field.1 = some a ∧ a.Restores field.2) :
    (Attribute.map schema).Restores (.map fields) := by
  have known : ∀ field ∈ fields, (schema.get? field.1).isSome = true := by
    intro field member
    obtain ⟨a, found, _⟩ := each field member
    rw [found]
    rfl
  have document := Value.documentFields_eq_map fields
  constructor
  · rw [Value.document, document, admits_map_iff, List.forall_mem_map]
    intro field member
    obtain ⟨a, found, restores⟩ := each field member
    exact ⟨a, found, restores.admits⟩
  · rw [Value.document, Value.dates, Value.dates]
    refine Value.fieldDates_document fun field member a given => ?_
    obtain ⟨b, found, restores⟩ := each field member
    cases given.symm.trans found
    exact restores.dates
  · rw [Value.document, Value.normal, Value.normal, Value.reduced, Value.reduced,
      Value.reducedFields_eq_map, Value.reducedFields_eq_map, Value.map.injEq]
    have alike : ∀ field ∈ Value.documentFields fields, (schema.get? field.1).isSome = true := by
      rw [document, List.forall_mem_map]
      exact known
    refine Record.Sorted.ext
      ((Value.normalFields_sorted schema _).map fun _ => Value.reduced)
      ((Value.normalFields_sorted schema _).map fun _ => Value.reduced) fun name => ?_
    rw [Record.find?_map fun _ => Value.reduced, Record.find?_map fun _ => Value.reduced,
      Value.find?_normalFields distinct alike, Value.find?_normalFields distinct known, document,
      Record.find?_map fun _ => Value.document]
    cases given : Record.find? name fields with
    | none => rfl
    | some v =>
      obtain ⟨a, found, restores⟩ := each (name, v) (Record.mem_of_find? given)
      dsimp only at found
      simp [found, restores.normal]

theorem Admits.restores {a : Attribute} {v : Value} (admits : a.Admits v) (sound : a.Sound)
    (plain : a.Plain) (readable : ∀ t ∈ v.dates a, t.InReadableYear ∧ t.OnClock) :
    a.Restores v := by
  induction admits with
  | null notKey => exact restores_null notKey
  | scalar typed content => exact restores_scalar typed content (plain.scalar typed) readable
  | set given nonempty each => exact restores_set given nonempty each plain.set
  | list each ih =>
    exact restores_list fun u member => ih u member sound.item plain.item fun t date =>
      readable t (Value.mem_itemDates member date)
  | @map fields schema known each ih =>
    refine restores_map sound.level.distinct ?_
    rintro ⟨name, u⟩ member
    obtain ⟨a, found⟩ := Option.isSome_iff_exists.mp (known _ member)
    have inside := Record.mem_of_find? found
    exact ⟨a, found, ih name a u found member (sound.field inside) (plain.field inside)
      fun t date => readable t (Value.mem_fieldDates member found date)⟩

/-- What any attribute of an accepted schema stores comes back in its normal form. -/
theorem Sound.decodes {a : Attribute} {v : Value} (sound : a.Sound)
    (encoded : encodeAt p a v = .ok w)
    (readable : ∀ t ∈ v.dates a, t.InReadableYear ∧ t.OnClock) (q : Path) :
    decodeAt .whole q a (some w) = .ok (some (v.normal a).dropZeroSigns) := by
  cases sound with
  | key key => exact decodeAt_encodeAt (.inl key) encoded readable q
  | nested nested => exact decodeAt_encodeAt (.inr nested) encoded readable q
  | @top schema level =>
    cases encodesTo_of_ok encoded with
    | null =>
      rw [Value.normal_null, decodeAt]
      rfl
    | scalar typed => contradiction
    | @map _ fields entries given =>
      have read := decodeFields_encodeFields (q := q) level given
        fun _ member a w found content =>
          decodeAt_encodeAt ((level.below _ (Record.mem_of_find? found)).imp And.right id) content
            (fun t date => readable t (Value.mem_fieldDates member found date)) _
      obtain ⟨decoded, made, record⟩ := map_eq_ok.mp read
      rw [decodeAt, made]
      simp [bind, Except.bind, record, Value.normal, Value.dropZeroSigns]

end Attribute

namespace Schema

variable {schema : Schema}

theorem decodeItem_of_encodeAt {v : Value} {item : Item} (accepted : schema.Accepted)
    (encoded : encodeAt p (.map schema) v = .ok (.m item))
    (readable : ∀ t ∈ v.dates (.map schema), t.InReadableYear ∧ t.OnClock) :
    schema.decodeItem item .strict = .ok (v.normal (.map schema)).dropZeroSigns := by
  have sound : (Attribute.map schema).Sound := .top accepted.wellFormed.toLevel
  have decoded := sound.decodes encoded readable []
  rw [decodeAt_item] at decoded
  obtain ⟨x, read, same⟩ := map_eq_ok.mp decoded
  cases same
  exact read

theorem encodeItem_of_admits {fields : List (String × Value)}
    (admits : (Attribute.map schema).Admits (.map fields)) :
    ∃ item, schema.encodeItem (.map fields) = .ok item := by
  rw [Attribute.admits_map_iff] at admits
  refine exists_encodeFields_ok_iff.mpr fun field member => ?_
  obtain ⟨a, found, content⟩ := admits field member
  exact ⟨a, found, content.encodes []⟩

/-- The attributes below the top are those that paths lead to. -/
theorem plain_iff (accepted : schema.Accepted) : (Attribute.map schema).Plain ↔
    ∀ p, schema.resolve p ≠ .ok (.scalar .bigint) ∧ schema.resolve p ≠ .ok (.set .binary) := by
  have level := accepted.wellFormed.toLevel
  have avoids : (Attribute.map schema).Plain ↔
      ∀ p, ¬(Attribute.map schema).Leads p (.scalar .bigint) ∧
        ¬(Attribute.map schema).Leads p (.set .binary) := by
    constructor
    · intro plain p
      exact ⟨fun leads => (plain p _ leads).1 rfl, fun leads => (plain p _ leads).2 rfl⟩
    · intro never p b leads
      constructor
      · rintro rfl
        exact (never p).1 leads
      · rintro rfl
        exact (never p).2 leads
  simp only [avoids, forall_and, level.never_resolves_iff (b := .scalar .bigint) nofun,
    level.never_resolves_iff (b := .set .binary) nofun]

/-- An item that went through a JSON document is accepted like the item itself, and what is stored
for the two reads the same: dates that had become texts and sets that had become lists are restored
by the schema, and numbers keep their values. Dates off the clock are lost to both alike. -/
theorem document_restored {v : Value} {item : Item} (accepted : schema.Accepted)
    (plain : ∀ p, schema.resolve p ≠ .ok (.scalar .bigint) ∧ schema.resolve p ≠ .ok (.set .binary))
    (ordered : v.Ordered) (encoded : schema.encodeItem v = .ok item)
    (numbers : ∀ d ∈ v.numbers, d.IsInteger64)
    (years : ∀ t ∈ v.dates (.map schema), t.InReadableYear) :
    ∃ again stored x y, Value.ofJson v.toJson = .ok again ∧
      schema.encodeItem again = .ok stored ∧ schema.decodeItem item .strict = .ok x ∧
      schema.decodeItem stored .strict = .ok y ∧ x.reduced = y.reduced := by
  have sound : (Attribute.map schema).Sound := .top accepted.wellFormed.toLevel
  have plain := (plain_iff accepted).mpr plain
  have whole := encodeAt_of_encodeItem encoded
  have admits := Attribute.admits_of_encodes whole
  have given := (admits.portable plain ordered numbers).ofJson_toJson
  -- Only what clocks show reaches the store, so the dates may be taken to be on the clock.
  have shown := (encodeAt_shown [] (.map schema) v).trans whole
  have readable : ∀ t ∈ v.shown.dates (.map schema), t.InReadableYear ∧ t.OnClock := by
    intro t date
    obtain ⟨u, given, rfl⟩ := Value.exists_of_mem_dates_shown date
    exact ⟨Instant.inReadableYear_shown.mpr (years u given), u.shown_onClock⟩
  have restores := (Attribute.admits_of_encodes shown).restores sound plain readable
  obtain ⟨fits, dates, normal⟩ := restores
  rw [Value.document_shown] at fits dates normal
  obtain ⟨stored, again⟩ : ∃ stored, schema.encodeItem v.document = .ok stored := by
    cases v with
    | map fields => exact encodeItem_of_admits fits
    | _ => simp [encodeItem, mismatch] at encoded
  have first := decodeItem_of_encodeAt accepted shown readable
  have second := decodeItem_of_encodeAt accepted (encodeAt_of_encodeItem again) (dates ▸ readable)
  refine ⟨_, stored, _, _, given, again, first, second, ?_⟩
  rw [Value.reduced_dropZeroSigns, Value.reduced_dropZeroSigns, normal]

end Schema

namespace Voyage

def schema : Schema :=
  [("ship", .partitionKey .string), ("sailed", .scalar .date), ("crew", .set .number),
    ("depths", .list (some (.scalar .number)))]

def seven : Decimal := ⟨false, 7000000, 6, by decide, by decide⟩

/-- For a set it is the same member. -/
def sevenAgain : Decimal := ⟨false, 70000000, 7, by decide, by decide⟩

def sounded : Decimal := ⟨true, 4200000000, 8, by decide, by decide⟩

/-- The ship sailed in a leap second off the clock. -/
def fields : List (String × Value) :=
  [("ship", .string "Argo"), ("sailed", .date ⟨1706688900, 1375000000, by decide⟩),
    ("crew", .set [.number seven, .number sevenAgain]), ("depths", .list [.number sounded, .null])]

theorem plain : (Attribute.map schema).Plain := by
  intro p b leads
  cases leads with
  | here => simp
  | field member further =>
    simp only [schema, List.mem_cons, List.not_mem_nil, or_false, Prod.mk.injEq] at member
    obtain ⟨_, rfl⟩ | ⟨_, rfl⟩ | ⟨_, rfl⟩ | ⟨_, rfl⟩ := member
    · cases further
      simp
    · cases further
      simp
    · cases further
      simp
    · cases further with
      | here => simp
      | index _ further =>
        cases further
        simp

theorem fields_ordered : (Value.ofFields fields).Ordered := by
  have number : ∀ d, (Value.number d).Ordered := fun d => .flat rfl rfl
  have crew : (Value.set [.number seven, .number sevenAgain]).Ordered :=
    .intro (by simp [Value.fields?]) (by simpa [Value.contents] using ⟨number _, number _⟩)
  have depths : (Value.list [.number sounded, .null]).Ordered :=
    .list (by simpa using ⟨number _, .flat rfl rfl⟩)
  exact Value.ofFields_ordered (by
    simpa [fields] using ⟨.flat rfl rfl, .flat rfl rfl, crew, depths⟩)

theorem fields_restored : schema.Accepted ∧ (Value.ofFields fields).Ordered ∧
    (∀ d ∈ (Value.ofFields fields).numbers, d.IsInteger64) ∧
    (∀ t ∈ (Value.ofFields fields).dates (.map schema), t.InReadableYear) ∧
    ∃ item again stored x y, schema.encodeItem (.ofFields fields) = .ok item ∧
      Value.ofJson (Value.ofFields fields).toJson = .ok again ∧
      schema.encodeItem again = .ok stored ∧ schema.decodeItem item .strict = .ok x ∧
      schema.decodeItem stored .strict = .ok y ∧ x.reduced = y.reduced := by
  have accepted : schema.Accepted := .inr ⟨schema, rfl⟩
  have years : ∀ t ∈ (Value.ofFields fields).dates (.map schema), t.InReadableYear := by decide
  have numbers : ∀ d ∈ (Value.ofFields fields).numbers, d.IsInteger64 := by
    have given : (Value.ofFields fields).numbers = [seven, sevenAgain, sounded] := by rfl
    rw [given]
    simp only [List.forall_mem_cons, List.not_mem_nil, false_implies, implies_true, and_true]
    refine ⟨⟨7, ?_, by decide⟩, ⟨7, ?_, by decide⟩, ⟨-42, ?_, by decide⟩⟩
    · norm_num [Decimal.value, seven]
    · norm_num [Decimal.value, sevenAgain]
    · norm_num [Decimal.value, sounded]
  obtain ⟨item, encoded⟩ : ∃ item, schema.encodeItem (.ofFields fields) = .ok item := ⟨_, rfl⟩
  obtain ⟨again, stored, x, y, restored⟩ := Schema.document_restored accepted
    ((Schema.plain_iff accepted).mp plain) fields_ordered encoded numbers years
  exact ⟨accepted, fields_ordered, numbers, years, item, again, stored, x, y, encoded, restored⟩

end Voyage

end ItemSchema
