import ItemSchema.Json.Reading
import ItemSchema.Schema.Validation

/-! Attributes and schemas from JSON. What an object says about an attribute is collected first, and
only the fields that its type calls for are looked at; the others need only be sound. -/
namespace ItemSchema

def KeyType.variants : List (String × KeyType) :=
  [("string", .string), ("number", .number), ("boolean", .boolean)]

def ScalarType.variants : List (String × ScalarType) :=
  [("string", .string), ("number", .number), ("bigint", .bigint), ("boolean", .boolean),
    ("date", .date)]

def SetType.variants : List (String × SetType) :=
  [("string", .string), ("number", .number), ("binary", .binary)]

/-- The types of attributes. -/
inductive AttributeType where
  | partitionKey
  | sortKey
  | scalar
  | set
  | list
  | map
  deriving DecidableEq

def AttributeType.variants : List (String × AttributeType) :=
  [("partitionKey", .partitionKey), ("sortKey", .sortKey), ("scalar", .scalar), ("set", .set),
    ("list", .list), ("map", .map)]

/-- The fields of an object that describes an attribute, each with all its occurrences in order. -/
structure Description where
  name : Option String
  type : List Json
  of : List Json
  items : List (Except ReadError (Option Attribute))
  fields : List (Except ReadError Schema)

namespace Description

def empty : Description := ⟨none, [], [], [], []⟩

/-- A field that may occur once. The first occurrence is read before the second one is an error. -/
def once? (field : String) (read : α → Except ReadError β) :
    List α → Except ReadError (Option β)
  | [] => .ok none
  | [only] => some <$> read only
  | first :: _ :: _ => do
    let _ ← read first
    throw (.duplicateField field)

def once (field : String) (read : α → Except ReadError β) (occurrences : List α) :
    Except ReadError β := do
  match ← once? field read occurrences with
  | some value => return value
  | none => throw (.missingField field)

/-- A type is given by its name, or inside another description by its position. -/
def readType (nested : Bool) : Json → Except ReadError AttributeType
  | .string name => Json.variant AttributeType.variants name
  | .number (.integer n) =>
    if nested && 0 ≤ n then
      match AttributeType.variants[n.toNat]? with
      | some (_, type) => .ok type
      | none => .error (.variantPosition n.toNat AttributeType.variants.length)
    else .error .wrongKind
  | .broken _ => .error .malformed
  | _ => .error .wrongKind

/-- The attribute that the fields describe. -/
def toAttribute (nested : Bool) (d : Description) : Except ReadError Attribute := do
  match ← once "type" (readType nested) d.type with
  | .partitionKey => .partitionKey <$> once "of" (Json.readVariant true KeyType.variants) d.of
  | .sortKey => .sortKey <$> once "of" (Json.readVariant true KeyType.variants) d.of
  | .scalar => .scalar <$> once "of" (Json.readVariant true ScalarType.variants) d.of
  | .set => .set <$> once "of" (Json.readVariant true SetType.variants) d.of
  | .list => return .list (← once? "items" id d.items).join
  | .map => .map <$> once "fields" id d.fields

end Description

/-- A named attribute. A missing name is noticed before anything about the attribute. -/
def Description.definition (d : Description) : Except ReadError (String × Attribute) := do
  let some name := d.name | throw (.missingField "name")
  return (name, ← d.toAttribute true)

mutual

/-- Collects the fields of an object that ends with a fault or none. In a definition one field is
the name; `named` tells whether it has been seen. -/
def describe (definition named : Bool) (fault : Option Json.Fault) :
    List (String × Json) → Except ReadError Description
  | [] => do
    Json.noFault fault
    return .empty
  | (key, value) :: rest => do
    if definition && key = "name" then
      if named then throw (.duplicateField "name")
      let name ← Json.readString value
      return { ← describe definition true fault rest with name := some name }
    else
      if !value.intact then throw .malformed
      let d ← describe definition named fault rest
      return match key with
        | "type" => { d with type := value :: d.type }
        | "of" => { d with of := value :: d.of }
        | "items" => { d with items := readItem value :: d.items }
        | "fields" => { d with fields := readFields value :: d.fields }
        | _ => d

/-- The attribute of the items of a list; a null stands for none. -/
def readItem : Json → Except ReadError (Option Attribute)
  | .null => .ok none
  | .object members fault => do
    return some (← (← describe false false fault members).toAttribute true)
  | .broken _ => .error .malformed
  | _ => .error .wrongKind

def readFields : Json → Except ReadError Schema
  | .array items => readDefinitions items
  | .broken _ => .error .malformed
  | _ => .error .wrongKind

def readDefinitions : List Json → Except ReadError Schema
  | [] => .ok []
  | item :: rest => do
    let definition ← readDefinition item
    return definition :: (← readDefinitions rest)

def readDefinition : Json → Except ReadError (String × Attribute)
  | .object members fault => do (← describe true false fault members).definition
  | .broken _ => .error .malformed
  | _ => .error .wrongKind

end

/-- An attribute that stands alone. -/
def Attribute.ofJson (j : Json) : Except ReadError Attribute := do
  let (members, fault) ← Json.readMembers j
  (← describe false false fault members).toAttribute false

/-- A schema as it stands, without checks. -/
def Schema.ofJson : Json → Except ReadError Schema :=
  readFields

/-- The checked schema of an entity from JSON text. -/
def Schema.ofText (text : String) : Except Error Schema := do
  let schema ← ((Json.parse text).read Schema.ofJson).mapError .json
  checkStructure schema
  checkEntity schema
  return schema

end ItemSchema
