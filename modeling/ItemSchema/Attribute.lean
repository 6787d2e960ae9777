/-! Attributes of an item and the schemas that name them. A list owns the attribute of its items, a
map the schema of its fields. -/
namespace ItemSchema

inductive ScalarType where
  | string
  | number
  | bigint
  | boolean
  | date
  deriving DecidableEq

def ScalarType.name : ScalarType → String
  | .string => "string"
  | .number => "number"
  | .bigint => "bigint"
  | .boolean => "boolean"
  | .date => "date"

/-- Whether values of the type are kept as strings. -/
def ScalarType.isStringLike : ScalarType → Bool
  | .string | .date => true
  | .number | .bigint | .boolean => false

/-- The types that a key can have. -/
inductive KeyType where
  | string
  | number
  | boolean
  deriving DecidableEq

def KeyType.scalarType : KeyType → ScalarType
  | .string => .string
  | .number => .number
  | .boolean => .boolean

inductive SetType where
  | string
  | number
  | binary
  deriving DecidableEq

/-- The type of the members. -/
def SetType.element : SetType → String
  | .string => "string"
  | .number => "number"
  | .binary => "binary"

def SetType.name : SetType → String
  | .string => "string set"
  | .number => "number set"
  | .binary => "binary set"

/-- A list may lack the attribute of its items, but no valid schema has such a list. -/
inductive Attribute where
  | partitionKey (of : KeyType)
  | sortKey (of : KeyType)
  | scalar (of : ScalarType)
  | set (of : SetType)
  | list (items : Option Attribute)
  | map (fields : List (String × Attribute))

/-- The fields are in the order of their definition. -/
abbrev Schema := List (String × Attribute)

/-- An attribute without the ones below it. -/
inductive AttributeKind where
  | partitionKey (of : KeyType)
  | sortKey (of : KeyType)
  | scalar (of : ScalarType)
  | set (of : SetType)
  | list
  | map
  deriving DecidableEq

namespace AttributeKind

def name : AttributeKind → String
  | .partitionKey of => "partition key (" ++ of.scalarType.name ++ ")"
  | .sortKey of => "sort key (" ++ of.scalarType.name ++ ")"
  | .scalar of => of.name
  | .set of => of.name
  | .list => "list"
  | .map => "map"

def isPartitionKey : AttributeKind → Bool
  | .partitionKey _ => true
  | _ => false

def isSortKey : AttributeKind → Bool
  | .sortKey _ => true
  | _ => false

def isKey (kind : AttributeKind) : Bool :=
  kind.isPartitionKey || kind.isSortKey

/-- The type of keys and scalars. -/
def scalarType? : AttributeKind → Option ScalarType
  | .partitionKey of | .sortKey of => some of.scalarType
  | .scalar of => some of
  | .set _ | .list | .map => none

end AttributeKind

namespace Attribute

def kind : Attribute → AttributeKind
  | .partitionKey of => .partitionKey of
  | .sortKey of => .sortKey of
  | .scalar of => .scalar of
  | .set of => .set of
  | .list _ => .list
  | .map _ => .map

def isPartitionKey (a : Attribute) : Bool :=
  a.kind.isPartitionKey

def isSortKey (a : Attribute) : Bool :=
  a.kind.isSortKey

def isKey (a : Attribute) : Bool :=
  a.kind.isKey

end Attribute

end ItemSchema
