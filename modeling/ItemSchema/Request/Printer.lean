import ItemSchema.Request
import ItemSchema.Wire.Printer

/-! Requests as JSON. What a request does not have is left out, as are empty tables of aliases. -/
namespace ItemSchema

def Json.optionalText (key : String) (text : Option String) : List (String × Json) :=
  text.toList.map fun s => (key, .string s)

def Json.nonemptyRecord (key : String) (members : List (String × Json)) : List (String × Json) :=
  if members.isEmpty then [] else [(key, .object members none)]

def namesMembers (names : Record String) : List (String × Json) :=
  Json.nonemptyRecord "ExpressionAttributeNames" (names.map fun (a, name) => (a, .string name))

def AliasTables.members (tables : AliasTables) : List (String × Json) :=
  namesMembers tables.names ++
    Json.nonemptyRecord "ExpressionAttributeValues" (Wire.fieldsToJson tables.values)

def capacityMembers (level : Option CapacityLevel) : List (String × Json) :=
  Json.optionalText "ReturnConsumedCapacity" (level.map CapacityLevel.name)

def ScanRequest.members (r : ScanRequest) : List (String × Json) :=
  ("TableName", .string r.tableName) ::
    (Json.optionalText "FilterExpression" r.filter ++
      Json.optionalText "ProjectionExpression" r.projection ++
      r.aliases.members ++
      (r.limit.toList.map fun n => ("Limit", .number (.integer n))) ++
      capacityMembers r.capacity)

def GetRequest.members (r : GetRequest) : List (String × Json) :=
  ("TableName", .string r.tableName) :: ("Key", r.key.toJson) ::
    (Json.optionalText "ProjectionExpression" r.projection ++
      namesMembers r.names ++
      capacityMembers r.capacity)

def WriteRequest.members (r : WriteRequest) : List (String × Json) :=
  ("TableName", .string r.tableName) ::
    (Json.optionalText "ConditionExpression" r.condition ++
      r.aliases.members ++
      Json.optionalText "ReturnValues" (r.returnValues.map ReturnValues.name) ++
      capacityMembers r.capacity ++
      Json.optionalText "ReturnItemCollectionMetrics" (r.metrics.map CollectionMetrics.name))

def Request.toJson : Request → Json
  | .query r =>
    .object (("KeyConditionExpression", .string r.keyCondition) :: r.toScanRequest.members) none
  | .scan r => .object r.members none
  | .get r => .object r.members none
  | .put r => .object (("Item", r.item.toJson) :: r.toWriteRequest.members) none
  | .update r =>
    .object
      (("Key", r.key.toJson) :: ("UpdateExpression", .string r.update) :: r.toWriteRequest.members)
      none
  | .delete r => .object (("Key", r.key.toJson) :: r.toWriteRequest.members) none

end ItemSchema
