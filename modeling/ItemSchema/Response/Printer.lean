import ItemSchema.Json
import ItemSchema.Response
import ItemSchema.Wire.Printer

/-! Responses as JSON. What a response does not have is left out. -/
namespace ItemSchema

def ConsumedCapacity.toJson (c : ConsumedCapacity) : Json :=
  .object
    (("TableName", .string c.tableName) ::
      c.units.toList.map fun x => ("CapacityUnits", .number (.float x)))
    none

def Response.itemsMembers (items : List Item) : List (String × Json) :=
  if items.isEmpty then [] else [("Items", .array (items.map Item.toJson))]

def Response.toJson (r : Response) : Json :=
  .object
    (Response.itemsMembers r.items ++
      (r.item.toList.map fun item => ("Item", item.toJson)) ++
      (r.attributes.toList.map fun item => ("Attributes", item.toJson)) ++
      r.consumed.toList.map fun c => ("ConsumedCapacity", c.toJson))
    none

end ItemSchema
