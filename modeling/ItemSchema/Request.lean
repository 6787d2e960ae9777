import ItemSchema.Expression.Alias
import ItemSchema.Request.Option

/-! Requests as they are sent to the store. -/
namespace ItemSchema

/-- A scan looks at the items of a table in any order. -/
structure ScanRequest where
  tableName : String
  filter : Option String
  projection : Option String
  aliases : AliasTables
  /-- How many items the store looks at, those in front of the page included. -/
  limit : Option Nat
  capacity : Option CapacityLevel
  /-- How many items of the answer are in front of the page. The store is not told. -/
  offset : Nat

/-- A query looks only at the items whose key meets a condition. -/
structure QueryRequest extends ScanRequest where
  keyCondition : String

structure GetRequest where
  tableName : String
  key : Item
  projection : Option String
  names : Record String
  capacity : Option CapacityLevel

/-- What writes have in common. -/
structure WriteRequest where
  tableName : String
  condition : Option String
  aliases : AliasTables
  returnValues : Option ReturnValues
  capacity : Option CapacityLevel
  metrics : Option CollectionMetrics

structure PutRequest extends WriteRequest where
  item : Item

structure UpdateRequest extends WriteRequest where
  key : Item
  update : String

structure DeleteRequest extends WriteRequest where
  key : Item

inductive Request where
  | query (r : QueryRequest)
  | scan (r : ScanRequest)
  | get (r : GetRequest)
  | put (r : PutRequest)
  | update (r : UpdateRequest)
  | delete (r : DeleteRequest)

namespace Request

def operation : Request → Operation
  | .query _ => .query
  | .scan _ => .scan
  | .get _ => .get
  | .put _ => .put
  | .update _ => .update
  | .delete _ => .delete

def tableName : Request → String
  | .query r => r.tableName
  | .scan r => r.tableName
  | .get r => r.tableName
  | .put r => r.tableName
  | .update r => r.tableName
  | .delete r => r.tableName

end Request

end ItemSchema
