import ItemSchema.Attribute
import ItemSchema.Json

/-! Attributes and schemas as JSON. An attribute is an object with its type and what belongs to it;
in a schema the name of the attribute stands beside them. -/
namespace ItemSchema

mutual

def Attribute.members : Attribute → List (String × Json)
  | .partitionKey of => [("type", .string "partitionKey"), ("of", .string of.scalarType.name)]
  | .sortKey of => [("type", .string "sortKey"), ("of", .string of.scalarType.name)]
  | .scalar of => [("type", .string "scalar"), ("of", .string of.name)]
  | .set of => [("type", .string "set"), ("of", .string of.element)]
  | .list none => [("type", .string "list")]
  | .list (some item) => [("type", .string "list"), ("items", .object item.members none)]
  | .map fields => [("type", .string "map"), ("fields", .array (definitions fields))]

def definitions : List (String × Attribute) → List Json
  | [] => []
  | (name, a) :: rest => .object (("name", .string name) :: a.members) none :: definitions rest

end

def Attribute.toJson (a : Attribute) : Json :=
  .object a.members none

def Schema.toJson (schema : Schema) : Json :=
  .array (definitions schema)

end ItemSchema
