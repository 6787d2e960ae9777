import ItemSchema.Proofs.Schema.WellFormed
import ItemSchema.Table

/-! The schemas of tables. Making a table counts the partition keys of its schema and looks at
nothing else of it, so the schema is well-formed if its structure was checked before, as it is in
reading a text and in building from fields. -/
namespace ItemSchema

/-- The schema of an entity: well-formed at every level, with one partition key. -/
structure Schema.IsEntity (schema : Schema) : Prop extends WellFormed schema where
  partitionKey : schema.partitionKeyCount = 1

theorem Schema.checkEntity_ok_iff (schema : Schema) :
    schema.checkEntity = .ok () ↔ schema.partitionKeyCount = 1 := by
  unfold checkEntity
  constructor
  · intro checked
    split at checked
    · assumption
    · contradiction
  · intro one
    rw [if_pos one]

/-- Both checks together admit the schemas of entities. -/
theorem Schema.isEntity_iff (schema : Schema) :
    schema.IsEntity ↔ schema.checkStructure = .ok () ∧ schema.checkEntity = .ok () := by
  rw [checkStructure_ok_iff, checkEntity_ok_iff]
  constructor
  · intro entity
    exact ⟨entity.toWellFormed, entity.partitionKey⟩
  · rintro ⟨wellFormed, one⟩
    exact ⟨wellFormed, one⟩

namespace Table

theorem ofSchema_ok_iff {config : TableConfig} {schema : Schema} {table : Table} :
    ofSchema config schema = .ok table ↔ table.config = config ∧ table.schema = schema := by
  constructor
  · intro made
    unfold ofSchema at made
    split at made
    · contradiction
    · split at made
      · contradiction
      · cases made
        exact ⟨rfl, rfl⟩
  · rintro ⟨rfl, rfl⟩
    unfold ofSchema
    split
    · rename_i refused
      rw [table.config_ok] at refused
      contradiction
    · split
      · rename_i refused
        rw [table.entity_ok] at refused
        contradiction
      · rfl

/-- A table can be made of every schema with one partition key. The schema is that of an entity
under one more condition, that its structure passes its check; it does in schemas that were read
from a text or built from fields. -/
theorem ofSchema_entity (config : TableConfig) (schema : Schema) :
    ((∃ table, ofSchema config schema = .ok table) ↔
        config.check = .ok () ∧ schema.partitionKeyCount = 1) ∧
      ((∃ table, ofSchema config schema = .ok table ∧ table.schema.IsEntity) ↔
        config.check = .ok () ∧ schema.partitionKeyCount = 1 ∧ schema.checkStructure = .ok ()) ∧
      ∀ table, ofSchema config schema = .ok table → schema.Accepted → table.schema.IsEntity := by
  have counted : ∀ {table}, ofSchema config schema = .ok table →
      config.check = .ok () ∧ schema.partitionKeyCount = 1 := by
    intro table made
    obtain ⟨rfl, rfl⟩ := ofSchema_ok_iff.mp made
    exact ⟨table.config_ok, (Schema.checkEntity_ok_iff _).mp table.entity_ok⟩
  have makes : ∀ (ok : config.check = .ok ()) (one : schema.partitionKeyCount = 1),
      ∃ table, ofSchema config schema = .ok table ∧ table.schema = schema := by
    intro ok one
    exact ⟨⟨config, schema, ok, schema.checkEntity_ok_iff.mpr one⟩, ofSchema_ok_iff.mpr ⟨rfl, rfl⟩,
      rfl⟩
  refine ⟨⟨?_, ?_⟩, ⟨?_, ?_⟩, ?_⟩
  · rintro ⟨table, made⟩
    exact counted made
  · rintro ⟨ok, one⟩
    obtain ⟨table, made, _⟩ := makes ok one
    exact ⟨table, made⟩
  · rintro ⟨table, made, entity⟩
    obtain ⟨ok, one⟩ := counted made
    obtain ⟨_, rfl⟩ := ofSchema_ok_iff.mp made
    exact ⟨ok, one, (Schema.isEntity_iff _).mp entity |>.1⟩
  · rintro ⟨ok, one, structure_ok⟩
    obtain ⟨table, made, rfl⟩ := makes ok one
    exact ⟨table, made, (Schema.isEntity_iff _).mpr ⟨structure_ok, table.entity_ok⟩⟩
  · intro table made accepted
    obtain ⟨_, rfl⟩ := ofSchema_ok_iff.mp made
    exact ⟨accepted.wellFormed, (counted made).2⟩

end Table

namespace Diary

/-- A page has two sort keys, so the store cannot hold it. -/
def schema : Schema :=
  [("owner", .partitionKey .string), ("day", .sortKey .string), ("page", .sortKey .number)]

/-- What is below the top level has a key, an attribute without a name, one name twice, and a list
without the attribute of its items. -/
def loose : Schema :=
  [("owner", .partitionKey .string),
    ("page", .map [("owner", .partitionKey .string), ("", .list none), ("", .set .string)])]

theorem ofSchema_two_sort_keys :
    (∃ table, Table.ofSchema (.ofName "diary") schema = .ok table ∧
        table.schema.sortKeyCount = 2 ∧ ¬table.schema.IsEntity) ∧
      ∃ table, Table.ofSchema (.ofName "diary") loose = .ok table ∧ ¬table.schema.IsEntity := by
  constructor
  · refine ⟨⟨.ofName "diary", schema, rfl, rfl⟩, Table.ofSchema_ok_iff.mpr ⟨rfl, rfl⟩, rfl, ?_⟩
    intro entity
    exact absurd entity.sortKeys (by decide)
  · refine ⟨⟨.ofName "diary", loose, rfl, rfl⟩, Table.ofSchema_ok_iff.mpr ⟨rfl, rfl⟩, ?_⟩
    intro entity
    have checked := (Schema.isEntity_iff _).mp entity |>.1
    contradiction

end Diary

end ItemSchema
