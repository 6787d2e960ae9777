import ItemSchema.Proofs.Codec.RoundTrip

/-! An item that is read, written back unchanged and read again. A map that the store does not have
is read as an empty one without the containers of its schema; it is stored as such, and then the
second reading puts them in. Nothing else changes but repetitions in sets and signs of zeros. -/
namespace ItemSchema

namespace Value

mutual

/-- Puts the empty containers of its schema into every empty map. -/
def fillEmptyMaps : Attribute → Value → Value
  | .list (some item), .list items => .list (fillItems item items)
  | .map schema, .map fields =>
    .map (if fields.isEmpty then Schema.emptyContainers schema else fillFields schema fields)
  | _, v => v

def fillItems (item : Attribute) : List Value → List Value
  | [] => []
  | v :: rest => v.fillEmptyMaps item :: fillItems item rest

def fillFields (schema : Schema) : List (String × Value) → List (String × Value)
  | [] => []
  | (name, v) :: rest =>
    let v := match schema.get? name with
      | some a => v.fillEmptyMaps a
      | none => v
    (name, v) :: fillFields schema rest

end

mutual

/-- The same value with each member of a set once and no sign at any zero. -/
def tidy : Value → Value
  | .number d => .number d.dropZeroSign
  | .set members => .set (dropItemSigns (distinctMembers members))
  | .list items => .list (tidyItems items)
  | .map fields => .map (tidyFields fields)
  | v => v

def tidyItems : List Value → List Value
  | [] => []
  | v :: rest => v.tidy :: tidyItems rest

def tidyFields : List (String × Value) → List (String × Value)
  | [] => []
  | (name, v) :: rest => (name, v.tidy) :: tidyFields rest

end

/-- What a whole item has at an attribute. Its dates were read, and so are on the clock. A map is
either empty, or complete in its lists and maps. -/
inductive Whole : Attribute → Value → Prop where
  | null : Whole a .null
  | scalar (typed : a.kind.scalarType? = some of) (flat : v.contents = [])
      (coerced : v.normal (.scalar of) = v) (clock : ∀ t ∈ v.dates (.scalar of), t.OnClock) :
      Whole a v
  | set (members : List Value) : Whole (.set of) (.set members)
  | list (items : ∀ v ∈ values, Whole item v) : Whole (.list (some item)) (.list values)
  | empty : Whole (.map schema) (.map [])
  | map {schema : Schema} {fields : List (String × Value)}
      (distinct : (schema.map Prod.fst).Nodup)
      (sorted : Record.Sorted fields)
      (known : ∀ field ∈ fields, (schema.get? field.1).isSome = true)
      (complete : ∀ name a v, schema.get? name = some a → a.emptyContainer? = some v →
        (Record.find? name fields).isSome = true)
      (below : ∀ name a v, schema.get? name = some a → (name, v) ∈ fields → Whole a v) :
      Whole (.map schema) (.map fields)

section

variable {schema : Schema} {fields : List (String × Value)}

theorem tidyItems_eq_map (items : List Value) : tidyItems items = items.map tidy := by
  induction items with
  | nil => rfl
  | cons v rest ih => rw [tidyItems, ih, List.map_cons]

theorem tidyFields_eq_map (fields : List (String × Value)) :
    tidyFields fields = fields.map fun field => (field.1, field.2.tidy) := by
  induction fields with
  | nil => rfl
  | cons field rest ih => rw [tidyFields, ih, List.map_cons]

theorem fillItems_eq_map (item : Attribute) (items : List Value) :
    fillItems item items = items.map (fillEmptyMaps item) := by
  induction items with
  | nil => rfl
  | cons v rest ih => rw [fillItems, ih, List.map_cons]

theorem fillFields_eq_map (schema : Schema) (fields : List (String × Value)) :
    fillFields schema fields = fields.map fun field =>
      (field.1, ((schema.get? field.1).map fun a => field.2.fillEmptyMaps a).getD field.2) := by
  induction fields with
  | nil => rfl
  | cons field rest ih =>
    obtain ⟨name, v⟩ := field
    rw [fillFields, ih, List.map_cons]
    cases schema.get? name <;> simp

theorem tidyFields_sorted (sorted : Record.Sorted fields) : Record.Sorted (tidyFields fields) := by
  rw [tidyFields_eq_map]
  exact sorted.map fun _ => tidy

theorem fillFields_sorted (sorted : Record.Sorted fields) :
    Record.Sorted (fillFields schema fields) := by
  rw [fillFields_eq_map]
  exact sorted.map fun name v => ((schema.get? name).map fun a => v.fillEmptyMaps a).getD v

theorem find?_tidyFields (fields : List (String × Value)) (name : String) :
    Record.find? name (tidyFields fields) = (Record.find? name fields).map tidy := by
  rw [tidyFields_eq_map]
  exact Record.find?_map (fun _ => tidy) fields name

theorem find?_fillFields (schema : Schema) (fields : List (String × Value)) (name : String) :
    Record.find? name (fillFields schema fields) = (Record.find? name fields).map fun v =>
      ((schema.get? name).map fun a => v.fillEmptyMaps a).getD v := by
  rw [fillFields_eq_map]
  exact Record.find?_map
    (fun name v => ((schema.get? name).map fun a => v.fillEmptyMaps a).getD v) fields name

theorem tidyFields_emptyContainers (schema : Schema) :
    tidyFields schema.emptyContainers = dropFieldSigns schema.emptyContainers := by
  rw [tidyFields_eq_map, dropFieldSigns_eq_map]
  apply List.map_congr_left
  intro (name, v) member
  obtain ⟨a, _, empty⟩ := mem_emptyContainers member
  cases a <;> simp [Attribute.emptyContainer?] at empty <;> subst empty <;> rfl

theorem fillEmptyMaps_null (a : Attribute) : Value.null.fillEmptyMaps a = .null := by
  cases a with
  | list item => cases item <;> rfl
  | _ => rfl

theorem fillEmptyMaps_scalar (typed : a.kind.scalarType? = some of) (v : Value) :
    v.fillEmptyMaps a = v := by
  cases a with
  | partitionKey key | sortKey key | scalar of => simp [fillEmptyMaps]
  | _ => contradiction

theorem tidy_of_flat {v : Value} (flat : v.contents = []) : v.tidy = v.dropZeroSigns := by
  cases v with
  | set members | list members =>
    rw [contents] at flat
    rw [flat]
    rfl
  | map fields =>
    rw [contents, List.map_eq_nil_iff] at flat
    rw [flat]
    rfl
  | _ => rfl

/-- The normal form of a value of a whole item differs from it in the empty maps alone. -/
theorem Whole.dropZeroSigns_normal {v : Value} (whole : Whole a v) :
    (v.normal a).dropZeroSigns = (v.fillEmptyMaps a).tidy := by
  have empty : ∀ schema : Schema, ((Value.map []).normal (.map schema)).dropZeroSigns =
      ((Value.map []).fillEmptyMaps (.map schema)).tidy := by
    intro schema
    simp [normal, normalFields, dropZeroSigns, fillEmptyMaps, tidy, tidyFields_emptyContainers]
  induction whole with
  | null =>
    rw [normal_null, fillEmptyMaps_null]
    rfl
  | scalar typed flat coerced _ =>
    rw [(normal_of_scalarType typed _).1, coerced, fillEmptyMaps_scalar typed, tidy_of_flat flat]
  | set members => rfl
  | list items ih =>
    rw [normal, fillEmptyMaps, dropZeroSigns, tidy, normalItems_eq_map, fillItems_eq_map,
      dropItemSigns_eq_map, tidyItems_eq_map, List.map_map, List.map_map]
    exact congrArg _ (List.map_congr_left ih)
  | empty => exact empty _
  | @map schema fields distinct sorted known complete below ih =>
    cases nonempty : fields.isEmpty with
    | true =>
      rw [List.isEmpty_iff.mp nonempty]
      exact empty schema
    | false =>
      simp only [normal, dropZeroSigns, fillEmptyMaps, tidy, nonempty, Bool.false_eq_true, if_false,
        Value.map.injEq]
      refine Record.Sorted.ext (dropFieldSigns_sorted (normalFields_sorted schema fields))
        (tidyFields_sorted (fillFields_sorted sorted)) fun name => ?_
      rw [find?_dropFieldSigns, find?_normalFields distinct known, find?_tidyFields,
        find?_fillFields]
      cases given : Record.find? name fields with
      | none =>
        cases found : schema.get? name with
        | none => rfl
        | some a =>
          cases container : a.emptyContainer? with
          | none => simp [container]
          | some v =>
            have present := complete name a v found container
            rw [given] at present
            contradiction
      | some v =>
        have member := Record.mem_of_find? given
        obtain ⟨a, found⟩ := Option.isSome_iff_exists.mp (known _ member)
        dsimp only at found
        simp [found, ih name a v found member]

theorem Whole.onClock {v : Value} (whole : Whole a v) : ∀ t ∈ v.dates a, t.OnClock := by
  induction whole with
  | null => simp [dates_null]
  | scalar typed flat coerced clock =>
    rw [(normal_of_scalarType typed _).2]
    exact clock
  | set members => simp [dates]
  | list items ih =>
    intro t date
    obtain ⟨v, member, date⟩ := mem_itemDates_iff.mp date
    exact ih v member t date
  | empty => simp [dates, fieldDates]
  | map distinct sorted known complete below ih =>
    intro t date
    obtain ⟨name, v, a, member, found, date⟩ := mem_fieldDates_iff.mp date
    exact ih name a v found member t date

/-- Filling changes what a value tidies to, if it changes anything. -/
theorem fillEmptyMaps_of_tidy {v : Value} {a : Attribute}
    (same : (v.fillEmptyMaps a).tidy = v.tidy) : v.fillEmptyMaps a = v := by
  induction v using contents_induction generalizing a with
  | step v ih =>
    cases v with
    | list items =>
      cases a with
      | list item =>
        cases item with
        | none => rfl
        | some item =>
          rw [fillEmptyMaps, tidy, tidy, tidyItems_eq_map, tidyItems_eq_map, fillItems_eq_map,
            List.map_map, Value.list.injEq, List.map_inj_left] at same
          have each : ∀ u ∈ items, u.fillEmptyMaps item = id u := by
            intro u member
            exact ih u member (same u member)
          rw [fillEmptyMaps, fillItems_eq_map, List.map_congr_left each, List.map_id]
      | _ => rfl
    | map fields =>
      cases a with
      | list item => cases item <;> rfl
      | map schema =>
        rw [fillEmptyMaps, tidy, tidy, Value.map.injEq] at same
        rw [fillEmptyMaps, Value.map.injEq]
        cases empty : fields.isEmpty with
        | true =>
          rw [List.isEmpty_iff.mp empty] at same ⊢
          simpa [tidyFields_eq_map] using same
        | false =>
          rw [if_neg (by simp [empty]), tidyFields_eq_map, tidyFields_eq_map, fillFields_eq_map,
            List.map_map, List.map_inj_left] at same
          have each : ∀ field ∈ fields, (field.1,
              ((Schema.get? schema field.1).map fun a => field.2.fillEmptyMaps a).getD field.2) =
                id field := by
            intro (name, u) member
            have same := same _ member
            cases found : Schema.get? schema name with
            | none => simp
            | some a =>
              simp only [Function.comp_apply, found, Option.map_some, Option.getD_some,
                Prod.mk.injEq, true_and] at same
              simp [ih u (mem_contents_map member) same]
          rw [if_neg (by simp), fillFields_eq_map, List.map_congr_left each, List.map_id]
      | _ => rfl
    | _ =>
      cases a with
      | list item => cases item <;> rfl
      | _ => rfl

end

end Value

theorem decodeFields_ok_each {schema : Schema}
    (decoded : decodeFields d p entries schema = .ok fields) :
    ∀ field ∈ schema, ∃ v, decodeAt d (p ++ [.field field.1]) field.2
      (Record.find? field.1 entries) = .ok v := by
  induction schema generalizing fields with
  | nil => simp
  | cons field rest ih =>
    obtain ⟨name, a⟩ := field
    simp only [decodeFields, bind_eq_ok] at decoded
    obtain ⟨v, here, others, later, _⟩ := decoded
    exact List.forall_mem_cons.mpr ⟨⟨v, here⟩, ih later⟩

/-- The fields that come out of decoding are the values of the attributes one by one. -/
theorem decodeFields_ok_iff {schema : Schema} : decodeFields d p entries schema = .ok fields ↔
    ∃ g : String → Attribute → Option Value, fields = Record.select g schema ∧
      ∀ field ∈ schema, decodeAt d (p ++ [.field field.1]) field.2
        (Record.find? field.1 entries) = .ok (g field.1 field.2) := by
  constructor
  · intro decoded
    let g : String → Attribute → Option Value := fun name a =>
      match decodeAt d (p ++ [.field name]) a (Record.find? name entries) with
      | .ok v => v
      | .error _ => none
    have each : ∀ field ∈ schema, decodeAt d (p ++ [.field field.1]) field.2
        (Record.find? field.1 entries) = .ok (g field.1 field.2) := by
      intro field member
      obtain ⟨v, here⟩ := decodeFields_ok_each decoded field member
      simp [g, here]
    rw [decodeFields_of_each each] at decoded
    cases decoded
    exact ⟨g, rfl, each⟩
  · rintro ⟨g, rfl, each⟩
    exact decodeFields_of_each each

/-- The record of a decoded map has for each name what its attribute decodes to. -/
theorem decodeFields_find? {schema : Schema} (distinct : (schema.map Prod.fst).Nodup)
    (decoded : decodeFields d p entries schema = .ok fields) (name : String) :
    match schema.get? name with
    | none => Record.find? name (Record.ofList fields) = none
    | some a => decodeAt d (p ++ [.field name]) a (Record.find? name entries) =
        .ok (Record.find? name (Record.ofList fields)) := by
  obtain ⟨g, rfl, each⟩ := decodeFields_ok_iff.mp decoded
  rw [Record.find?_ofList_select g distinct, ← Schema.get?]
  cases found : schema.get? name with
  | none => rfl
  | some a => exact each _ (Record.mem_of_find? found)

/-- Items are decoded one by one. -/
theorem decodeItems_getElem? {decode : Nat → Wire → Except Error (Option Value)}
    (decoded : decodeItems decode start ws = .ok vs) (n : Nat) :
    ws[n]? = none ∧ vs[n]? = none ∨
      ∃ w u, ws[n]? = some w ∧ decode (start + n) w = .ok u ∧ vs[n]? = some (u.getD .null) := by
  induction ws generalizing start n vs with
  | nil =>
    cases decoded
    exact .inl ⟨rfl, rfl⟩
  | cons w rest ih =>
    simp only [decodeItems, bind_eq_ok, except_pure, Except.ok.injEq] at decoded
    obtain ⟨u, first, others, later, rfl⟩ := decoded
    cases n with
    | zero => exact .inr ⟨w, u, rfl, first, rfl⟩
    | succ n =>
      have step : start + (n + 1) = start + 1 + n := by omega
      rw [step]
      exact ih later n

theorem mem_decodeItems {decode : Nat → Wire → Except Error (Option Value)}
    (decoded : decodeItems decode start ws = .ok items) (member : v ∈ items) :
    ∃ i w u, decode i w = .ok u ∧ v = u.getD .null := by
  obtain ⟨n, found⟩ := List.getElem?_of_mem member
  obtain ⟨_, nothing⟩ | ⟨w, u, _, here, kept⟩ := decodeItems_getElem? decoded n
  · rw [found] at nothing
    contradiction
  · cases found.symm.trans kept
    exact ⟨start + n, w, u, here, rfl⟩

theorem decodeUnfit_strict : decodeUnfit .strict p of number ≠ .ok v := by
  unfold decodeUnfit
  split <;> simp

theorem decodeNumber_strict (decoded : decodeNumber .strict p number = .ok v) :
    ∃ d, v = .number d := by
  unfold decodeNumber at decoded
  split at decoded
  · cases decoded
    exact ⟨_, rfl⟩
  · exact (decodeUnfit_strict decoded).elim

theorem decodeScalar_strict (decoded : decodeScalar .strict p of w = .ok v) :
    v.contents = [] ∧ v.normal (.scalar of) = v ∧ ∀ t ∈ v.dates (.scalar of), t.OnClock := by
  unfold decodeScalar at decoded
  split at decoded
  · cases decoded
    exact ⟨rfl, rfl, by simp [Value.dates]⟩
  · obtain ⟨d, rfl⟩ := decodeNumber_strict decoded
    exact ⟨rfl, rfl, by simp [Value.dates]⟩
  · split at decoded
    · cases decoded
      exact ⟨rfl, rfl, by simp [Value.dates]⟩
    · exact (decodeUnfit_strict decoded).elim
  · cases decoded
    exact ⟨rfl, rfl, by simp [Value.dates]⟩
  · split at decoded
    · rename_i t read
      cases decoded
      exact ⟨rfl, rfl, by simpa [Value.dates] using Instant.ofText?_onClock read⟩
    · contradiction
  all_goals contradiction

theorem decodeSet_strict (decoded : decodeSet .strict p of w = .ok v) :
    ∃ members, v = .set members := by
  unfold decodeSet at decoded
  split at decoded
  · cases decoded
    exact ⟨_, rfl⟩
  · obtain ⟨members, _, rfl⟩ := map_eq_ok.mp decoded
    exact ⟨members, rfl⟩
  · cases decoded
    exact ⟨_, rfl⟩
  all_goals contradiction

/-- A whole item has something for each list and map. -/
theorem decodeAt_whole_none (decoded : decodeAt .whole p a w = .ok none) :
    a.emptyContainer? = none := by
  cases w with
  | none =>
    rw [decodeAt, Except.ok.injEq, absent_whole] at decoded
    exact decoded
  | some w =>
    cases a with
    | list item | map schema =>
      unfold decodeAt at decoded
      split at decoded <;> simp_all
    | _ => rfl

theorem decodeFields_whole {schema : Schema} (level : schema.Level topLevel)
    (decoded : decodeFields .whole p entries schema = .ok fields)
    (each : ∀ v ∈ (Value.map (Record.ofList fields)).contents, ∀ a q w,
      a.isKey = true ∨ a.Nested → decodeAt .whole q a w = .ok (some v) → v.Whole a) :
    (Value.map (Record.ofList fields)).Whole (.map schema) := by
  have look := decodeFields_find? level.distinct decoded
  refine .map level.distinct (Record.ofList_sorted _) ?_ ?_ ?_
  · intro field member
    have given := Record.find?_of_mem (Record.ofList_sorted _).distinct member
    have here := look field.1
    cases found : schema.get? field.1 with
    | none =>
      rw [found] at here
      exact nomatch given.symm.trans here
    | some a => rfl
  · intro name a v found container
    have here := look name
    rw [found] at here
    cases chosen : Record.find? name (Record.ofList fields) with
    | none =>
      rw [chosen] at here
      rw [decodeAt_whole_none here] at container
      contradiction
    | some u => rfl
  · intro name a v found member
    have here := look name
    rw [found, Record.find?_of_mem (Record.ofList_sorted _).distinct member] at here
    exact each v (Value.mem_contents_map member) a _ _
      ((level.below _ (Record.mem_of_find? found)).imp And.right id) here

theorem decodeAt_whole_absent (sound : a.isKey = true ∨ a.Nested)
    (decoded : decodeAt .whole p a none = .ok (some v)) : v.Whole a := by
  rw [decodeAt, Except.ok.injEq, absent_whole] at decoded
  cases a with
  | list item =>
    rcases sound with key | nested
    · contradiction
    · cases nested
      cases decoded
      exact .list (by simp)
  | map schema =>
    cases decoded
    exact .empty
  | _ => contradiction

theorem decodeAt_whole (sound : a.isKey = true ∨ a.Nested)
    (decoded : decodeAt .whole p a w = .ok (some v)) : v.Whole a := by
  induction v using Value.contents_induction generalizing a p w with
  | step v ih =>
    cases w with
    | none => exact decodeAt_whole_absent sound decoded
    | some w =>
      by_cases isNull : w = .null
      · rw [isNull, decodeAt] at decoded
        cases decoded
        exact .null
      · cases a with
        | partitionKey of | sortKey of | scalar of =>
          rw [decodeAt, map_eq_ok] at decoded
          · obtain ⟨_, scalar, same⟩ := decoded
            cases same
            obtain ⟨flat, coerced, clock⟩ := decodeScalar_strict scalar
            exact .scalar rfl flat coerced clock
          · exact isNull
        | set of =>
          rw [decodeAt, map_eq_ok] at decoded
          · obtain ⟨_, members, same⟩ := decoded
            cases same
            obtain ⟨kept, rfl⟩ := decodeSet_strict members
            exact .set kept
          · exact isNull
        | list item =>
          have nested : (Attribute.list item).Nested := sound.resolve_left Bool.false_ne_true
          cases nested with
          | @list item nested =>
            cases w with
            | l ws =>
              rw [decodeAt, map_eq_ok] at decoded
              obtain ⟨items, each, same⟩ := decoded
              cases same
              apply Value.Whole.list
              intro v member
              obtain ⟨i, w, u, here, rfl⟩ := mem_decodeItems each member
              cases u with
              | none => exact .null
              | some v => exact ih v member (.inr nested) here
            | null => exact (isNull rfl).elim
            | _ => simp [decodeAt, decodeMismatch, Decoding.whole] at decoded
        | map schema =>
          have nested : (Attribute.map schema).Nested := sound.resolve_left Bool.false_ne_true
          cases w with
          | m entries =>
            simp only [decodeAt, bind_eq_ok, except_pure, Except.ok.injEq] at decoded
            obtain ⟨fields, decoded, same⟩ := decoded
            cases same
            exact decodeFields_whole ((Schema.level_nested schema).mpr nested) decoded
              fun v member a q w sound decoded => ih v member sound decoded
          | null => exact (isNull rfl).elim
          | _ => simp [decodeAt, decodeMismatch, Decoding.whole] at decoded

/-- An item that was read and written back reads as it did before, once every empty map that the
first reading put in has been given the empty containers of its schema. So it reads the same if and
only if there is no such map. -/
theorem Schema.decodeItem_reread (read : Schema.ofText text = .ok schema)
    (first : schema.decodeItem item .strict = .ok v) (written : schema.encodeItem v = .ok again)
    (years : ∀ t ∈ v.dates (.map schema), t.InReadableYear) :
    schema.decodeItem again .strict = .ok (v.fillEmptyMaps (.map schema)).tidy ∧
      (schema.decodeItem again .strict = .ok v.tidy ↔ v.fillEmptyMaps (.map schema) = v) := by
  have accepted : schema.Accepted := .inl ⟨text, read⟩
  have level := accepted.wellFormed.toLevel
  have whole : v.Whole (.map schema) := by
    simp only [decodeItem, decodeWith, bind_eq_ok, except_pure, Except.ok.injEq] at first
    obtain ⟨fields, decoded, rfl⟩ := first
    exact decodeFields_whole level decoded fun v _ a q w sound decoded =>
      decodeAt_whole sound decoded
  have reread : schema.decodeItem again .strict = .ok (v.fillEmptyMaps (.map schema)).tidy := by
    rw [← whole.dropZeroSigns_normal]
    exact (decodeItem_encodeItem accepted written years whole.onClock).1
  refine ⟨reread, ?_⟩
  rw [reread, Except.ok.injEq]
  constructor
  · intro same
    exact Value.fillEmptyMaps_of_tidy same
  · intro complete
    rw [complete]

namespace Wallet

def briefText : String :=
  "[\x7b\"name\":\"id\",\"type\":\"partitionKey\",\"of\":\"string\"\x7d,\x7b\"name\":\"main\"," ++
    "\"type\":\"map\",\"fields\":[\x7b\"name\":\"owners\",\"type\":\"list\"," ++
    "\"items\":\x7b\"type\":\"scalar\",\"of\":\"string\"\x7d\x7d]\x7d]"

def brief : Schema :=
  [("id", .partitionKey .string), ("main", .map [("owners", .list (some (.scalar .string)))])]

set_option maxRecDepth 2000 in
theorem brief_read : Schema.ofText briefText = .ok brief := by
  cbv

/-- A wallet without its main card, as it is read at first. -/
def missing : Value :=
  .map [("id", .string "w"), ("main", .map [])]

/-- The main card has no owners at the first reading and the empty list of owners at the second. -/
theorem missing_reread_differs :
    Schema.ofText briefText = .ok brief ∧
      brief.decodeItem [("id", .s "w")] .strict = .ok missing ∧
      brief.encodeItem missing = .ok [("id", .s "w"), ("main", .m [])] ∧
      (∀ t ∈ missing.dates (.map brief), t.InReadableYear) ∧
      ∃ v, brief.decodeItem [("id", .s "w"), ("main", .m [])] .strict = .ok v ∧
        v.tidy ≠ missing.tidy := by
  refine ⟨brief_read, rfl, rfl, by decide,
    .map [("id", .string "w"), ("main", .map [("owners", .list [])])], rfl, ?_⟩
  intro same
  have owners := congrArg (fun v => (v.get? "main").map fun card => card.contents.length) same
  exact absurd owners (by decide)

theorem missing_reread :
    brief.decodeItem [("id", .s "w"), ("main", .m [])] .strict =
      .ok (.map [("id", .string "w"), ("main", .map [("owners", .list [])])]) := by
  have read : brief.decodeItem [("id", .s "w")] .strict = .ok missing := rfl
  exact (Schema.decodeItem_reread brief_read read rfl (by decide)).1

end Wallet

end ItemSchema
