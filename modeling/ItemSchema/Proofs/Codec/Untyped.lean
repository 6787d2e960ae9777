import ItemSchema.Proofs.Codec.Conformance
import ItemSchema.Proofs.Codec.Lenience
import ItemSchema.Proofs.Codec.Rereading
import ItemSchema.Proofs.Wire.Order

/-! Decoding with and without a schema. A schema adds dates and big integers to what the tags of a
wire value say, and it passes over entries that it does not name; a part of an item that gives it
occasion for neither is the same value for both decoders. -/
namespace ItemSchema

namespace Attribute

/-- Neither the attribute nor any below it makes a date of a text or a big integer of a number. -/
def Uncoerced (a : Attribute) : Prop :=
  ∀ p, ¬a.Leads p (.scalar .date) ∧ ¬a.Leads p (.scalar .bigint)

/-- Every map of the wire value that a map of the attribute is reached with has no other entries
than that map names. -/
def Covers (a : Attribute) (w : Wire) : Prop :=
  ∀ p schema entries, a.Leads p (.map schema) → w.at? p = some (.m entries) →
    ∀ entry ∈ entries, (Schema.get? schema entry.1).isSome = true

namespace Uncoerced

theorem scalar_iff {a : Attribute} (typed : a.kind.scalarType? = some of) :
    a.Uncoerced ↔ of ≠ .date ∧ of ≠ .bigint := by
  have here : ∀ {b p}, a.Leads p b → b = a := by
    intro b p leads
    cases leads with
    | here => rfl
    | field | index => contradiction
  constructor
  · intro uncoerced
    obtain ⟨noDate, noBigint⟩ := uncoerced []
    cases a with
    | partitionKey key | sortKey key =>
      cases typed
      cases key <;> simp [KeyType.scalarType]
    | scalar of =>
      cases typed
      constructor
      · rintro rfl
        exact noDate (.here _)
      · rintro rfl
        exact noBigint (.here _)
    | _ => contradiction
  · rintro ⟨noDate, noBigint⟩ p
    constructor
    · intro leads
      rw [← here leads] at typed
      exact noDate (Option.some.inj typed).symm
    · intro leads
      rw [← here leads] at typed
      exact noBigint (Option.some.inj typed).symm

theorem set (of : SetType) : (Attribute.set of).Uncoerced :=
  fun _ => ⟨nofun, nofun⟩

theorem list_iff {item : Attribute} :
    (Attribute.list (some item)).Uncoerced ↔ item.Uncoerced := by
  constructor
  · intro uncoerced p
    exact (uncoerced (.index 0 :: p)).imp (· ∘ .index 0) (· ∘ .index 0)
  · intro below p
    constructor
    · intro leads
      cases leads with
      | index n further => exact (below _).1 further
    · intro leads
      cases leads with
      | index n further => exact (below _).2 further

theorem map_iff {fields : Schema} :
    (Attribute.map fields).Uncoerced ↔ ∀ field ∈ fields, field.2.Uncoerced := by
  constructor
  · intro uncoerced field member p
    exact (uncoerced (.field field.1 :: p)).imp (· ∘ .field member) (· ∘ .field member)
  · intro each p
    constructor
    · intro leads
      cases leads with
      | field member further => exact (each _ member _).1 further
    · intro leads
      cases leads with
      | field member further => exact (each _ member _).2 further

end Uncoerced

namespace Covers

/-- Values that are not gone into are covered. -/
theorem closed {a : Attribute} (closed : a.opens w = false) : a.Covers w := by
  intro p schema entries leads held
  cases leads with
  | here =>
    cases held
    contradiction
  | field member further => cases w <;> simp [Wire.at?, opens] at held closed
  | index n further => cases w <;> simp [Wire.at?, opens] at held closed

theorem list_iff {item : Attribute} {ws : List Wire} :
    (Attribute.list (some item)).Covers (.l ws) ↔ ∀ w ∈ ws, item.Covers w := by
  constructor
  · intro covers w member p schema inner leads held
    obtain ⟨n, found⟩ := List.getElem?_of_mem member
    refine covers (.index n :: p) schema inner (.index n leads) ?_
    rw [Wire.at?, found, Option.bind_some, held]
  · intro each p schema inner leads held
    cases leads with
    | index n further =>
      rw [Wire.at?, Option.bind_eq_some_iff] at held
      obtain ⟨w, found, held⟩ := held
      exact each w (List.mem_of_getElem? found) _ schema inner further held

theorem map_iff {fields : Schema} : (Attribute.map fields).Covers (.m entries) ↔
    (∀ entry ∈ entries, (fields.get? entry.1).isSome = true) ∧
      ∀ field ∈ fields, ∀ w, Record.find? field.1 entries = some w → field.2.Covers w := by
  constructor
  · intro covers
    refine ⟨covers [] fields entries (.here _) rfl, ?_⟩
    intro field member w found p schema inner leads held
    refine covers (.field field.1 :: p) schema inner (.field member leads) ?_
    rw [Wire.at?, found, Option.bind_some, held]
  · rintro ⟨known, each⟩ p schema inner leads held
    cases leads with
    | here =>
      cases held
      exact known
    | field member further =>
      rw [Wire.at?, Option.bind_eq_some_iff] at held
      obtain ⟨w, found, held⟩ := held
      exact each _ member w found _ schema inner further held

end Covers

end Attribute

theorem Wire.untypedItems_eq_map (items : List Wire) :
    Wire.untypedItems items = items.map Wire.untyped := by
  induction items with
  | nil => rfl
  | cons item rest ih => rw [Wire.untypedItems, ih, List.map_cons]

theorem Wire.untypedFields_eq_map (fields : List (String × Wire)) :
    Wire.untypedFields fields = fields.map fun field => (field.1, field.2.untyped) := by
  induction fields with
  | nil => rfl
  | cons field rest ih => rw [Wire.untypedFields, ih, List.map_cons]

theorem Wire.find?_untypedFields (fields : List (String × Wire)) (name : String) :
    Record.find? name (Wire.untypedFields fields) =
      (Record.find? name fields).map Wire.untyped := by
  rw [Wire.untypedFields_eq_map]
  exact Record.find?_map (fun _ => Wire.untyped) fields name

theorem Wire.untypedFields_sorted {fields : List (String × Wire)} (sorted : Record.Sorted fields) :
    Record.Sorted (Wire.untypedFields fields) := by
  rw [Wire.untypedFields_eq_map]
  exact sorted.map fun _ => Wire.untyped

section

variable {mode : DecodeMode} {p : Path}

theorem decodeMismatch_untyped (decoded : decodeMismatch mode p tag w = .ok v) :
    v = w.untyped := by
  cases mode with
  | strict => contradiction
  | lenient =>
    cases decoded
    rfl

/-- A number that no decimal holds is taken as its text by both decoders, if it is taken. -/
theorem decodeNumber_untyped (decoded : decodeNumber mode p number = .ok v) :
    v = .ofNumberText number := by
  unfold decodeNumber at decoded
  unfold Value.ofNumberText
  split at decoded
  · cases decoded
    rfl
  · unfold decodeUnfit at decoded
    split at decoded
    · cases mode with
      | strict => contradiction
      | lenient =>
        cases decoded
        rfl
    · contradiction

theorem decodeScalar_untyped (coerced : of ≠ .date ∧ of ≠ .bigint)
    (decoded : decodeScalar mode p of w = .ok v) : v = w.untyped := by
  unfold decodeScalar at decoded
  split at decoded
  case h_1 | h_4 =>
    cases decoded
    rfl
  case h_2 => exact decodeNumber_untyped decoded
  case h_3 => exact absurd rfl coerced.2
  case h_5 => exact absurd rfl coerced.1
  all_goals exact decodeMismatch_untyped decoded

theorem decodeSet_untyped (decoded : decodeSet mode p of w = .ok v) : v = w.untyped := by
  unfold decodeSet at decoded
  split at decoded
  case h_1 | h_3 =>
    cases decoded
    rfl
  case h_2 numbers =>
    obtain ⟨members, each, rfl⟩ := map_eq_ok.mp decoded
    rw [Wire.untyped, eq_map_of_mapM (fun _ _ => decodeNumber_untyped) each]
  all_goals exact decodeMismatch_untyped decoded

theorem decodeItems_untyped {decode : Nat → Wire → Except Error (Option Value)}
    (decoded : decodeItems decode start ws = .ok vs)
    (each : ∀ i, ∀ w ∈ ws, ∀ u, decode i w = .ok u → u = some w.untyped) :
    vs = Wire.untypedItems ws := by
  rw [Wire.untypedItems_eq_map]
  refine List.ext_getElem? fun n => ?_
  rw [List.getElem?_map]
  obtain ⟨beyond, nothing⟩ | ⟨w, u, found, here, kept⟩ := decodeItems_getElem? decoded n
  · rw [beyond, nothing]
    rfl
  · rw [found, kept, each _ w (List.mem_of_getElem? found) u here]
    rfl

/-- A map all of whose entries are named is decoded entry by entry. -/
theorem decodeFields_untyped {schema : Schema} (distinct : (schema.map Prod.fst).Nodup)
    (sorted : Record.Sorted entries)
    (known : ∀ entry ∈ entries, (schema.get? entry.1).isSome = true)
    (decoded : decodeFields ⟨mode, false⟩ p entries schema = .ok fields)
    (each : ∀ name a w, (name, a) ∈ schema → Record.find? name entries = some w → ∀ p u,
      decodeAt ⟨mode, false⟩ p a (some w) = .ok u → u = some w.untyped) :
    Record.ofList fields = Wire.untypedFields entries := by
  refine Record.Sorted.ext (Record.ofList_sorted fields) (Wire.untypedFields_sorted sorted)
    fun name => ?_
  rw [Wire.find?_untypedFields]
  have look := decodeFields_find? distinct decoded name
  cases found : Record.find? name entries with
  | none =>
    cases named : schema.get? name with
    | none =>
      rw [named] at look
      exact look
    | some a =>
      -- what is absent is left out of a part of an item
      have absent : Decoding.absent ⟨mode, false⟩ a = none := by cases a <;> rfl
      simp only [named, found, decodeAt, absent, Except.ok.injEq] at look
      exact look.symm
  | some w =>
    obtain ⟨a, named⟩ := Option.isSome_iff_exists.mp (known _ (Record.mem_of_find? found))
    dsimp only at named
    simp only [named, found] at look
    exact each name a w (Record.mem_of_find? named) found _ _ look

/-- Null is null in both decoders, so only the other values are to be looked at. -/
theorem decodeAt_untyped_of_present {a : Attribute}
    (decoded : decodeAt d p a (some w) = .ok u)
    (present : w.tag ≠ .null → u = some w.untyped) : u = some w.untyped := by
  cases w with
  | null =>
    rw [decodeAt] at decoded
    cases decoded
    rfl
  | _ => exact present (by simp [Wire.tag])

/-- What an attribute without dates and big integers makes of a value that it covers is what the
tags of the value say. -/
theorem decodeAt_untyped {a : Attribute} (sound : a.Sound) (uncoerced : a.Uncoerced)
    (ordered : w.Ordered) (covers : a.Covers w)
    (decoded : decodeAt ⟨mode, false⟩ p a (some w) = .ok u) : u = some w.untyped := by
  induction a using Attribute.below_induction generalizing p w u with
  | scalar a of typed =>
    refine decodeAt_untyped_of_present decoded fun present => ?_
    rw [decodeAt_scalar typed present] at decoded
    obtain ⟨v, read, rfl⟩ := map_eq_ok.mp decoded
    rw [decodeScalar_untyped ((Attribute.Uncoerced.scalar_iff typed).mp uncoerced) read]
  | set of =>
    refine decodeAt_untyped_of_present decoded fun present => ?_
    rw [decodeAt_set present] at decoded
    obtain ⟨v, read, rfl⟩ := map_eq_ok.mp decoded
    rw [decodeSet_untyped read]
  | bare => exact absurd sound Attribute.Sound.not_bare
  | list item ih =>
    refine decodeAt_untyped_of_present decoded fun present => ?_
    cases w with
    | null => contradiction
    | l items =>
      cases ordered with
      | leaf flat => contradiction
      | list below =>
        obtain ⟨vs, read, rfl⟩ := map_eq_ok.mp decoded
        have each := decodeItems_untyped read fun i w member u here =>
          ih sound.item (Attribute.Uncoerced.list_iff.mp uncoerced) (below w member)
            (Attribute.Covers.list_iff.mp covers w member) here
        rw [each, Wire.untyped]
    | _ =>
      obtain ⟨v, read, rfl⟩ := map_eq_ok.mp decoded
      rw [decodeMismatch_untyped read]
  | map fields ih =>
    refine decodeAt_untyped_of_present decoded fun present => ?_
    cases w with
    | null => contradiction
    | m entries =>
      cases ordered with
      | leaf flat => contradiction
      | map sorted below =>
        obtain ⟨made, read, same⟩ := bind_eq_ok.mp decoded
        cases same
        obtain ⟨known, inside⟩ := Attribute.Covers.map_iff.mp covers
        have uncoerced := Attribute.Uncoerced.map_iff.mp uncoerced
        have each := decodeFields_untyped sound.level.distinct sorted known read
          fun name a w member found p u here =>
            ih _ member (sound.field member) (uncoerced _ member)
              (below _ (Record.mem_of_find? found)) (inside _ member w found) here
        rw [each, Wire.untyped]
    | _ =>
      obtain ⟨v, read, rfl⟩ := map_eq_ok.mp decoded
      rw [decodeMismatch_untyped read]

end

namespace Schema

variable {schema : Schema}

/-- The attributes below the top are those that paths lead to. -/
theorem uncoerced_iff (accepted : schema.Accepted) : (Attribute.map schema).Uncoerced ↔
    ∀ p, schema.resolve p ≠ .ok (.scalar .date) ∧ schema.resolve p ≠ .ok (.scalar .bigint) := by
  have level := accepted.wellFormed.toLevel
  simp only [Attribute.Uncoerced, forall_and, level.never_resolves_iff (b := .scalar .date) nofun,
    level.never_resolves_iff (b := .scalar .bigint) nofun]

/-- A part of an item whose entries the schema names is decoded as without the schema, unless there
are dates or big integers in the schema. -/
theorem decodePartialItem_untyped {v : Value} {item : Item} (accepted : schema.Accepted)
    (uncoerced : ∀ p,
      schema.resolve p ≠ .ok (.scalar .date) ∧ schema.resolve p ≠ .ok (.scalar .bigint))
    (ordered : item.Ordered) (covers : (Attribute.map schema).Covers (.m item))
    (decoded : schema.decodePartialItem item mode = .ok v) :
    v = .map (Wire.untypedFields item) := by
  have sound := Attribute.Sound.top accepted.wellFormed.toLevel
  have whole : decodeAt ⟨mode, false⟩ [] (.map schema) (some (.m item)) = .ok (some v) := by
    rw [decodeAt_item]
    exact map_eq_ok.mpr ⟨v, decoded, rfl⟩
  have same := decodeAt_untyped sound ((uncoerced_iff accepted).mpr uncoerced)
    (.map ordered.sorted ordered.each) covers whole
  exact Option.some.inj same

end Schema

namespace Observatory

def sighting : Schema :=
  [("names", .set .string), ("seen", .scalar .number)]

def schema : Schema :=
  [("id", .partitionKey .string), ("night", .map [("clear", .scalar .boolean)]),
    ("plates", .set .binary), ("sightings", .list (some (.map sighting))),
    ("magnitudes", .set .number)]

/-- What an update touched: a null in a map and one in a list, and sets that repeat a member. -/
def touched : Item :=
  [("magnitudes", .ns ["1.50", "15e-1"]), ("night", .m [("clear", .null)]),
    ("plates", .bs [[1], [1]]),
    ("sightings", .l [.m [("names", .ss ["Vega"]), ("seen", .n "007")], .null, .m []])]

theorem touched_ordered : touched.Ordered := by
  have night : (Wire.m [("clear", .null)]).Ordered :=
    .map (List.pairwise_singleton _ _) (by simpa using .leaf rfl)
  have vega : (Wire.m [("names", .ss ["Vega"]), ("seen", .n "007")]).Ordered :=
    .map (by unfold Record.Sorted; decide) (by simpa using ⟨.leaf rfl, .leaf rfl⟩)
  have unseen : (Wire.m []).Ordered := .map .nil (by simp)
  have sightings : (Wire.l [.m [("names", .ss ["Vega"]), ("seen", .n "007")], .null,
      .m []]).Ordered := .list (by simpa using ⟨vega, .leaf rfl, unseen⟩)
  exact ⟨by unfold Record.Sorted; decide,
    by simpa [touched] using ⟨.leaf rfl, night, .leaf rfl, sightings⟩⟩

theorem schema_covers_touched : (Attribute.map schema).Covers (.m touched) := by
  simpa [schema, sighting, touched, Attribute.Covers.map_iff, Attribute.Covers.list_iff,
    Schema.get?, Record.find?] using
    ⟨.closed rfl, .closed rfl, ⟨⟨.closed rfl, .closed rfl⟩, .closed rfl⟩, .closed rfl⟩

theorem schema_uncoerced : (Attribute.map schema).Uncoerced := by
  have id : (Attribute.partitionKey .string).Uncoerced :=
    (Attribute.Uncoerced.scalar_iff rfl).mpr (by decide)
  have clear : (Attribute.scalar .boolean).Uncoerced :=
    (Attribute.Uncoerced.scalar_iff rfl).mpr (by decide)
  have seen : (Attribute.scalar .number).Uncoerced :=
    (Attribute.Uncoerced.scalar_iff rfl).mpr (by decide)
  simpa [schema, sighting, Attribute.Uncoerced.map_iff, Attribute.Uncoerced.list_iff,
    Attribute.Uncoerced.set] using ⟨id, clear, seen⟩

theorem touched_untyped : schema.Accepted ∧ touched.Ordered ∧
    (Attribute.map schema).Covers (.m touched) ∧
    schema.decodePartialItem touched .strict = .ok (.map (Wire.untypedFields touched)) := by
  have accepted : schema.Accepted := .inr ⟨schema, rfl⟩
  obtain ⟨v, decoded⟩ : ∃ v, schema.decodePartialItem touched .strict = .ok v := ⟨_, rfl⟩
  have same := Schema.decodePartialItem_untyped accepted
    ((Schema.uncoerced_iff accepted).mp schema_uncoerced) touched_ordered schema_covers_touched decoded
  exact ⟨accepted, touched_ordered, schema_covers_touched, same ▸ decoded⟩

end Observatory

end ItemSchema
