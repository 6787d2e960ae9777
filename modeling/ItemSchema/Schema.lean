import ItemSchema.Attribute
import ItemSchema.Record

/-! The attributes of a schema by name, and its keys. -/
namespace ItemSchema.Schema

/-- Of attributes of one name the first one counts. -/
def get? (schema : Schema) (name : String) : Option Attribute :=
  Record.find? name schema

def isPrimaryKey (schema : Schema) (name : String) : Bool :=
  (schema.get? name).any Attribute.isKey

def partitionKey? (schema : Schema) : Option String :=
  (schema.find? fun (_, a) => a.isPartitionKey).map Prod.fst

def sortKey? (schema : Schema) : Option String :=
  (schema.find? fun (_, a) => a.isSortKey).map Prod.fst

/-- The names of the keys, the partition key first. -/
def keyNames (schema : Schema) : List String :=
  schema.partitionKey?.toList ++ schema.sortKey?.toList

end ItemSchema.Schema
