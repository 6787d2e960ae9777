import ItemSchema.Codec.Encoding
import ItemSchema.Schema.Validation
import ItemSchema.Schema.View
import ItemSchema.Table.Config

/-! A table of the store: the schema of its items and how they are written and read. -/
namespace ItemSchema

structure Table where
  config : TableConfig
  schema : Schema
  config_ok : config.check = .ok ()
  entity_ok : schema.checkEntity = .ok ()

namespace Table

/-- The table of a schema, if the configuration holds and then the schema has a partition key. -/
def ofSchema (config : TableConfig) (schema : Schema) : Except Error Table :=
  match hc : config.check with
  | .error e => .error e
  | .ok () =>
    match hs : schema.checkEntity with
    | .error e => .error e
    | .ok () => .ok ⟨config, schema, hc, hs⟩

def name (table : Table) : String :=
  table.config.tableName

def view (table : Table) (scope : ViewScope) : SchemaView :=
  ⟨table.schema, scope⟩

theorem partitionKey?_isSome (table : Table) : table.schema.partitionKey?.isSome := by
  have counted : table.schema.partitionKeyCount = 1 := by
    have ok := table.entity_ok
    unfold Schema.checkEntity at ok
    split at ok
    · assumption
    · contradiction
  have found : 0 < table.schema.partitionKeyCount :=
    Nat.lt_of_lt_of_eq Nat.zero_lt_one counted.symm
  rw [Schema.partitionKeyCount, List.countP_pos_iff] at found
  simpa [Schema.partitionKey?] using found

def partitionKey (table : Table) : String :=
  table.schema.partitionKey?.get table.partitionKey?_isSome

def encodeItem (table : Table) (v : Value) : Except Error Item :=
  table.schema.encodeItem v

def decodeItem (table : Table) (item : Item) : Except Error Value :=
  table.schema.decodeItem item table.config.mode

def decodePartialItem (table : Table) (item : Item) : Except Error Value :=
  table.schema.decodePartialItem item table.config.mode

/-- Encodes the keys that a schema lists. -/
def encodeKeys (fields : List (String × Value)) :
    List (String × Attribute) → Except Error (List (String × Wire))
  | [] => .ok []
  | (name, a) :: rest => do
    let here : Path := [.field name]
    match Record.find? name fields with
    | none => throw (.invalidOperand (.path here) .missingKeyAttribute)
    | some v =>
      let w ← encodeAt here a v
      return (name, w) :: (← encodeKeys fields rest)

/-- A primary key is a map of all key attributes and nothing else. -/
def encodeKey (table : Table) (v : Value) : Except Error Item :=
  match v with
  | .map fields =>
    match fields.find? fun (name, _) => !table.schema.isPrimaryKey name with
    | some (name, _) => .error (.unknownField .key name)
    | none => Record.ofList <$> encodeKeys fields (table.schema.filter fun (_, a) => a.isKey)
  | _ => .error (.typeMismatch .key .map (.kind v.kind))

end Table

end ItemSchema
