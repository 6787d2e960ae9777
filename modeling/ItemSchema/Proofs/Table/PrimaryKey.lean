import ItemSchema.Proofs.Codec.Conformance
import ItemSchema.Proofs.Schema.View
import ItemSchema.Proofs.Table.Entity
import ItemSchema.Request.Write

/-! Primary keys. A key is encoded by itself and as a part of an item, and what is stored is the
same. -/
namespace ItemSchema

namespace Schema

variable {schema : Schema}

theorem isPrimaryKey_iff : schema.isPrimaryKey name = true ↔
    ∃ a, schema.get? name = some a ∧ a.isKey = true := by
  rw [isPrimaryKey, Option.any_eq_true]

/-- The entries of the key attributes. -/
def keysOf (schema : Schema) (entries : List (String × α)) : List (String × α) :=
  entries.filter fun entry => schema.isPrimaryKey entry.1

theorem find?_keysOf {entries : List (String × α)} (distinct : (entries.map Prod.fst).Nodup)
    (name : String) : Record.find? name (schema.keysOf entries) =
      (Record.find? name entries).filter fun _ => schema.isPrimaryKey name :=
  Record.find?_filter (fun name _ => schema.isPrimaryKey name) distinct name

theorem keysOf_eq_self {entries : List (String × α)}
    (names : ∀ name ∈ entries.map Prod.fst, schema.isPrimaryKey name = true) :
    schema.keysOf entries = entries :=
  List.filter_eq_self.mpr fun _ member => names _ (List.mem_map_of_mem member)

theorem mem_keysOf_names {entries : List (String × α)} :
    name ∈ (schema.keysOf entries).map Prod.fst ↔
      name ∈ entries.map Prod.fst ∧ schema.isPrimaryKey name = true := by
  simp [keysOf]

/-- The fields of a primary key: all key attributes and nothing else, each with a value of its type,
which null is not. -/
structure KeyFields (schema : Schema) (fields : List (String × Value)) : Prop where
  names : ∀ name, name ∈ fields.map Prod.fst ↔ schema.isPrimaryKey name = true
  typed : ∀ name a u, schema.get? name = some a → Record.find? name fields = some u →
    u ≠ .null ∧ ∃ of, a.kind.scalarType? = some of ∧ of.Admits u

/-- What is the only one of its kind is found. -/
theorem find?_of_countP_le_one {p : α → Bool} {xs : List α} (single : xs.countP p ≤ 1)
    (member : x ∈ xs) (chosen : p x = true) : xs.find? p = some x := by
  induction xs with
  | nil => contradiction
  | cons y rest ih =>
    rcases List.mem_cons.mp member with rfl | later
    · rw [List.find?_cons_of_pos chosen]
    · have other : ¬p y = true := by
        intro first
        have counted := List.countP_pos_iff.mpr ⟨x, later, chosen⟩
        rw [List.countP_cons_of_pos first] at single
        omega
      rw [List.countP_cons_of_neg other] at single
      rw [List.find?_cons_of_neg other, ih single later]

/-- There is one partition key and at most one sort key, so their names are those of all keys. -/
theorem mem_keyNames (wellFormed : schema.WellFormed) :
    name ∈ schema.keyNames ↔ schema.isPrimaryKey name = true := by
  rw [isPrimaryKey_iff, keyNames, List.mem_append, Option.mem_toList, Option.mem_toList,
    partitionKey?, sortKey?]
  constructor
  · rintro (named | named)
    · obtain ⟨⟨key, a⟩, found, rfl⟩ := Option.map_eq_some_iff.mp named
      refine ⟨a, Record.find?_of_mem wellFormed.distinct (List.mem_of_find?_eq_some found), ?_⟩
      have chosen := List.find?_some found
      exact Bool.or_eq_true_iff.mpr (.inl chosen)
    · obtain ⟨⟨key, a⟩, found, rfl⟩ := Option.map_eq_some_iff.mp named
      refine ⟨a, Record.find?_of_mem wellFormed.distinct (List.mem_of_find?_eq_some found), ?_⟩
      have chosen := List.find?_some found
      exact Bool.or_eq_true_iff.mpr (.inr chosen)
  · rintro ⟨a, found, key⟩
    have member := Record.mem_of_find? found
    rcases Bool.or_eq_true_iff.mp key with partitionKey | sortKey
    · left
      rw [find?_of_countP_le_one wellFormed.partitionKeys member partitionKey, Option.map_some]
    · right
      rw [find?_of_countP_le_one wellFormed.sortKeys member sortKey, Option.map_some]

end Schema

theorem Attribute.admits_key_iff {a : Attribute} (key : a.isKey = true) :
    a.Admits u ↔ u ≠ .null ∧ ∃ of, a.kind.scalarType? = some of ∧ of.Admits u := by
  constructor
  · intro admits
    cases admits with
    | null notKey =>
      rw [key] at notKey
      contradiction
    | scalar typed content =>
      refine ⟨?_, _, typed, content⟩
      rintro rfl
      cases content
    | set | list | map => contradiction
  · rintro ⟨_, of, typed, content⟩
    exact .scalar typed content

/-- What is stored for a key has the tag of its type and is not null. -/
theorem key_tag {a : Attribute} (encoded : encodeAt p a u = .ok w) (key : a.isKey = true) :
    w.tag = a.tag ∧ w ≠ .null := by
  have tag : w.tag = a.tag := by
    rcases (encodesTo_of_ok encoded).tag with tag | ⟨_, notKey⟩
    · exact tag
    · rw [key] at notKey
      contradiction
  refine ⟨tag, ?_⟩
  rintro rfl
  cases a with
  | partitionKey of | sortKey of => cases of <;> contradiction
  | _ => contradiction

namespace Table

variable {table : Table} {name : String}

theorem encodeKeys_names (encoded : encodeKeys fields row = .ok entries) :
    entries.map Prod.fst = row.map Prod.fst := by
  induction row generalizing entries with
  | nil =>
    cases encoded
    rfl
  | cons entry rest ih =>
    obtain ⟨name, a⟩ := entry
    rw [encodeKeys] at encoded
    cases given : Record.find? name fields with
    | none => simp [given] at encoded
    | some u =>
      simp only [given, bind_eq_ok, except_pure, Except.ok.injEq] at encoded
      obtain ⟨w, _, others, later, rfl⟩ := encoded
      rw [List.map_cons, List.map_cons, ih later]

/-- Each key that is listed is encoded as its attribute says. -/
theorem find?_encodeKeys (encoded : encodeKeys fields row = .ok entries)
    (listed : Record.find? name row = some a) :
    ∃ u w, Record.find? name fields = some u ∧ encodeAt [.field name] a u = .ok w ∧
      Record.find? name entries = some w := by
  induction row generalizing entries with
  | nil => contradiction
  | cons entry rest ih =>
    obtain ⟨key, b⟩ := entry
    rw [encodeKeys] at encoded
    cases given : Record.find? key fields with
    | none => simp [given] at encoded
    | some u =>
      simp only [given, bind_eq_ok, except_pure, Except.ok.injEq] at encoded
      obtain ⟨w, here, others, later, rfl⟩ := encoded
      by_cases same : name = key
      · subst same
        rw [Record.find?, if_pos rfl] at listed
        cases listed
        exact ⟨u, w, given, here, if_pos rfl⟩
      · rw [Record.find?, if_neg same] at listed
        rw [Record.find?, if_neg same]
        exact ih later listed

theorem exists_encodeKeys_ok_iff : (∃ entries, encodeKeys fields row = .ok entries) ↔
    ∀ entry ∈ row, ∃ u, Record.find? entry.1 fields = some u ∧ entry.2.Admits u := by
  induction row with
  | nil => simp [encodeKeys]
  | cons entry rest ih =>
    obtain ⟨name, a⟩ := entry
    rw [List.forall_mem_cons, ← ih, encodeKeys]
    cases given : Record.find? name fields with
    | none => simp
    | some u =>
      simp only [bind_eq_ok, except_pure, Except.ok.injEq, Option.some.injEq, exists_eq_left',
        ← exists_encodeAt_ok_iff (p := [.field name])]
      constructor
      · rintro ⟨_, w, first, ws, others, rfl⟩
        exact ⟨⟨w, first⟩, ws, others⟩
      · rintro ⟨⟨w, first⟩, ws, others⟩
        exact ⟨_, w, first, ws, others, rfl⟩

/-- The attributes of the schema that are keys. -/
def keyAttributes (table : Table) : List (String × Attribute) :=
  table.schema.filter fun (_, a) => a.isKey

theorem find?_keyAttributes (wellFormed : table.schema.WellFormed) (name : String) :
    Record.find? name table.keyAttributes = (table.schema.get? name).filter Attribute.isKey :=
  Record.find?_filter (fun _ => Attribute.isKey) wellFormed.distinct name

theorem encodeKey_ok_iff : table.encodeKey (.map fields) = .ok key ↔
    (∀ field ∈ fields, table.schema.isPrimaryKey field.1 = true) ∧
      ∃ entries, encodeKeys fields table.keyAttributes = .ok entries ∧
        Record.ofList entries = key := by
  rw [encodeKey, keyAttributes]
  split
  · rename_i name v extra
    have other := List.find?_some extra
    simp only [reduceCtorEq, false_iff, not_and]
    intro all
    simp [all _ (List.mem_of_find?_eq_some extra)] at other
  · rename_i extra
    rw [List.find?_eq_none] at extra
    simp only [Bool.not_eq_true', Bool.not_eq_false] at extra
    simp only [map_eq_ok, iff_and_self]
    exact fun _ => extra

/-- The key that is encoded has exactly the key attributes, each as it is encoded by itself. -/
theorem find?_encodeKey (wellFormed : table.schema.WellFormed)
    (encoded : table.encodeKey (.map fields) = .ok key) (name : String) :
    match (table.schema.get? name).filter Attribute.isKey with
    | none => Record.find? name key = none
    | some a => ∃ u w, Record.find? name fields = some u ∧ encodeAt [.field name] a u = .ok w ∧
        Record.find? name key = some w := by
  obtain ⟨_, entries, listed, rfl⟩ := encodeKey_ok_iff.mp encoded
  have names := encodeKeys_names listed
  have distinct : (entries.map Prod.fst).Nodup := by
    rw [names]
    exact wellFormed.distinct.sublist (List.filter_sublist.map Prod.fst)
  rw [Record.find?_ofList distinct, ← find?_keyAttributes wellFormed]
  cases found : Record.find? name table.keyAttributes with
  | none => rwa [Record.find?_eq_none_iff, names, ← Record.find?_eq_none_iff]
  | some a => exact find?_encodeKeys listed found

theorem keyFields_of_encodeKey (encoded : table.encodeKey (.map fields) = .ok key) :
    table.schema.KeyFields fields := by
  obtain ⟨known, entries, listed, _⟩ := encodeKey_ok_iff.mp encoded
  have each : ∀ name a, table.schema.get? name = some a → a.isKey = true →
      ∃ u, Record.find? name fields = some u ∧ a.Admits u := by
    intro name a found key
    exact exists_encodeKeys_ok_iff.mp ⟨entries, listed⟩ (name, a)
      (List.mem_filter.mpr ⟨Record.mem_of_find? found, key⟩)
  constructor
  case names =>
    intro name
    constructor
    · intro member
      obtain ⟨field, given, rfl⟩ := List.mem_map.mp member
      exact known field given
    · intro primary
      obtain ⟨a, found, key⟩ := Schema.isPrimaryKey_iff.mp primary
      obtain ⟨u, given, _⟩ := each name a found key
      rw [← Record.find?_isSome_iff, given, Option.isSome_some]
  case typed =>
    intro name a u found given
    have key := Schema.isPrimaryKey_of_get? found ▸ known _ (Record.mem_of_find? given)
    obtain ⟨v, same, admits⟩ := each name a found key
    cases given.symm.trans same
    exact (Attribute.admits_key_iff key).mp admits

theorem encodeKey_of_keyFields (wellFormed : table.schema.WellFormed)
    (keyFields : table.schema.KeyFields fields) :
    ∃ key, table.encodeKey (.map fields) = .ok key := by
  have each : ∀ entry ∈ table.keyAttributes,
      ∃ u, Record.find? entry.1 fields = some u ∧ entry.2.Admits u := by
    rintro ⟨name, a⟩ member
    obtain ⟨given, key⟩ := List.mem_filter.mp member
    have found := Record.find?_of_mem wellFormed.distinct given
    have present := (keyFields.names name).mpr (Schema.isPrimaryKey_iff.mpr ⟨a, found, key⟩)
    obtain ⟨u, held⟩ := Option.isSome_iff_exists.mp (Record.find?_isSome_iff.mpr present)
    exact ⟨u, held, (Attribute.admits_key_iff key).mpr (keyFields.typed name a u found held)⟩
  obtain ⟨entries, listed⟩ := exists_encodeKeys_ok_iff.mpr each
  refine ⟨_, encodeKey_ok_iff.mpr ⟨?_, entries, listed, rfl⟩⟩
  intro field member
  exact (keyFields.names field.1).mp (List.mem_map_of_mem member)

/-- A value is encoded as a key exactly if it is one. -/
theorem exists_encodeKey_ok_iff (wellFormed : table.schema.WellFormed) :
    (∃ key, table.encodeKey v = .ok key) ↔
      ∃ fields, v = .map fields ∧ table.schema.KeyFields fields := by
  cases v with
  | map fields =>
    simp only [Value.map.injEq, exists_eq_left']
    exact ⟨fun ⟨_, encoded⟩ => keyFields_of_encodeKey encoded, encodeKey_of_keyFields wellFormed⟩
  | _ => simp [encodeKey]

theorem map_of_encodeItem (stored : Put.encodeItem table v = .ok item) :
    ∃ fields, v = .map fields := by
  obtain ⟨_, encoded, _⟩ := bind_eq_ok.mp stored
  cases v with
  | map fields => exact ⟨fields, rfl⟩
  | _ => simp [encodeItem, Schema.encodeItem, mismatch] at encoded

theorem encodeItem_ok_iff (wellFormed : table.schema.WellFormed) :
    Put.encodeItem table v = .ok item ↔ table.encodeItem v = .ok item ∧
      ∀ name, table.schema.isPrimaryKey name = true → (Record.find? name item).isSome = true := by
  simp only [← Schema.mem_keyNames wellFormed, Put.encodeItem, bind_eq_ok]
  constructor
  · rintro ⟨made, encoded, rest⟩
    split at rest
    · contradiction
    · rename_i complete
      cases rest
      refine ⟨encoded, fun name member => ?_⟩
      have present := List.find?_eq_none.mp complete name member
      simpa [Option.isSome_iff_ne_none] using present
  · rintro ⟨encoded, complete⟩
    refine ⟨item, encoded, ?_⟩
    have none : (table.schema.keyNames.find? fun name => (Record.find? name item).isNone) = none :=
      List.find?_eq_none.mpr fun name member => by
        simpa [Option.isSome_iff_ne_none] using complete name member
    rw [none]
    rfl

/-- An item that is accepted has all keys, each as it is encoded by itself. -/
theorem find?_key (wellFormed : table.schema.WellFormed)
    (stored : Put.encodeItem table (.map fields) = .ok item)
    (found : table.schema.get? name = some a) (key : a.isKey = true) :
    ∃ u w, Record.find? name fields = some u ∧ encodeAt [.field name] a u = .ok w ∧
      Record.find? name item = some w := by
  obtain ⟨encoded, complete⟩ := (encodeItem_ok_iff wellFormed).mp stored
  have present := complete name (Schema.isPrimaryKey_iff.mpr ⟨a, found, key⟩)
  have look := find?_encodeFields encoded name
  cases given : Record.find? name fields with
  | none =>
    simp only [given] at look
    rw [look] at present
    contradiction
  | some u =>
    simp only [given] at look
    obtain ⟨b, w, same, alone, entry⟩ := look
    cases found.symm.trans same
    exact ⟨u, w, rfl, alone, entry⟩

theorem keyFields_keysOf (wellFormed : table.schema.WellFormed) (sorted : Record.Sorted fields)
    (stored : Put.encodeItem table (.map fields) = .ok item) :
    table.schema.KeyFields (table.schema.keysOf fields) := by
  constructor
  case names =>
    intro name
    rw [Schema.mem_keysOf_names, and_iff_right_iff_imp]
    intro primary
    obtain ⟨a, found, key⟩ := Schema.isPrimaryKey_iff.mp primary
    obtain ⟨u, _, given, _⟩ := find?_key wellFormed stored found key
    rw [← Record.find?_isSome_iff, given, Option.isSome_some]
  case typed =>
    intro name a u found given
    rw [Schema.find?_keysOf sorted.distinct, Option.filter_eq_some_iff] at given
    have key := Schema.isPrimaryKey_of_get? found ▸ given.2
    obtain ⟨v, w, same, alone, _⟩ := find?_key wellFormed stored found key
    cases given.1.symm.trans same
    exact (Attribute.admits_key_iff key).mp (a.admits_of_encodes alone)

/-- The key of an item is stored as it is encoded without the rest of the item. -/
theorem encodeKey_of_encodeItem (wellFormed : table.schema.WellFormed)
    (sorted : Record.Sorted fields) (stored : Put.encodeItem table (.map fields) = .ok item) :
    table.encodeKey (.map (table.schema.keysOf fields)) = .ok (table.schema.keysOf item) := by
  obtain ⟨key, encoded⟩ :=
    encodeKey_of_keyFields wellFormed (keyFields_keysOf wellFormed sorted stored)
  have sortedItem : Record.Sorted item :=
    sorted.of_names (encodeFields_names ((encodeItem_ok_iff wellFormed).mp stored).1)
  have sortedKey : Record.Sorted key := by
    obtain ⟨_, entries, _, rfl⟩ := encodeKey_ok_iff.mp encoded
    exact Record.ofList_sorted entries
  suffices key = table.schema.keysOf item by rw [encoded, this]
  apply sortedKey.ext (sortedItem.filter _)
  intro name
  have look := find?_encodeKey wellFormed encoded name
  rw [← Schema.keysOf, Schema.find?_keysOf sortedItem.distinct]
  cases primary : table.schema.isPrimaryKey name with
  | false =>
    have none : (table.schema.get? name).filter Attribute.isKey = none := by
      rw [Option.filter_eq_none_iff]
      intro a found key
      rw [Schema.isPrimaryKey_of_get? found, key] at primary
      contradiction
    simpa [none] using look
  | true =>
    obtain ⟨a, found, isKey⟩ := Schema.isPrimaryKey_iff.mp primary
    obtain ⟨u, w, given, alone, entry⟩ := find?_key wellFormed stored found isKey
    simp only [found, Option.filter_some, isKey, if_true] at look
    obtain ⟨v, x, same, again, here⟩ := look
    rw [Schema.find?_keysOf sorted.distinct, given, Option.filter_some, if_pos primary] at same
    cases same
    cases alone.symm.trans again
    rw [here, entry, Option.filter_some, if_pos rfl]

/-- A key is encoded as the item that has nothing else. -/
theorem encodeItem_of_encodeKey (wellFormed : table.schema.WellFormed)
    (sorted : Record.Sorted fields) (encoded : table.encodeKey (.map fields) = .ok key) :
    table.encodeItem (.map fields) = .ok key := by
  have keyFields := keyFields_of_encodeKey encoded
  have known : ∀ field ∈ fields, ∃ a, table.schema.get? field.1 = some a ∧
      ∃ w, encodeAt [] a field.2 = .ok w := by
    intro field member
    have primary := (keyFields.names field.1).mp (List.mem_map_of_mem member)
    obtain ⟨a, found, isKey⟩ := Schema.isPrimaryKey_iff.mp primary
    have typed := keyFields.typed _ a _ found (Record.find?_of_mem sorted.distinct member)
    exact ⟨a, found, ((Attribute.admits_key_iff isKey).mpr typed).encodes []⟩
  obtain ⟨item, made⟩ := exists_encodeFields_ok_iff.mpr known
  have names := encodeFields_names made
  have stored : Put.encodeItem table (.map fields) = .ok item := by
    refine (encodeItem_ok_iff wellFormed).mpr ⟨made, fun name primary => ?_⟩
    rw [Record.find?_isSome_iff, names]
    exact (keyFields.names name).mpr primary
  have again := encodeKey_of_encodeItem wellFormed sorted stored
  have primary := fun name => (keyFields.names name).mp
  rw [Schema.keysOf_eq_self primary, encoded,
    Schema.keysOf_eq_self fun name member => primary name (names ▸ member)] at again
  cases again
  exact made

end Table

end ItemSchema
