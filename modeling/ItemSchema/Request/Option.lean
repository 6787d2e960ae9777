/-! Options of requests, each with the names it has in a request. -/
namespace ItemSchema

/-- How much detail on consumed capacity the store returns. -/
inductive CapacityLevel where
  | indexes
  | total
  | none
  deriving DecidableEq

/-- Which attributes a write returns. -/
inductive ReturnValues where
  | none
  | allOld
  | updatedOld
  | allNew
  | updatedNew
  deriving DecidableEq

/-- Whether a write returns figures on the item collection. -/
inductive CollectionMetrics where
  | size
  | none
  deriving DecidableEq

def CapacityLevel.name : CapacityLevel → String
  | .indexes => "INDEXES"
  | .total => "TOTAL"
  | .none => "NONE"

def CapacityLevel.all : List CapacityLevel :=
  [.indexes, .total, .none]

def ReturnValues.name : ReturnValues → String
  | .none => "NONE"
  | .allOld => "ALL_OLD"
  | .updatedOld => "UPDATED_OLD"
  | .allNew => "ALL_NEW"
  | .updatedNew => "UPDATED_NEW"

def ReturnValues.all : List ReturnValues :=
  [.none, .allOld, .updatedOld, .allNew, .updatedNew]

def CollectionMetrics.name : CollectionMetrics → String
  | .size => "SIZE"
  | .none => "NONE"

def CollectionMetrics.all : List CollectionMetrics :=
  [.size, .none]

/-- The requests that the store takes. -/
inductive Operation where
  | query
  | scan
  | get
  | put
  | update
  | delete
  deriving DecidableEq

/-- The name by which the store knows a request. -/
def Operation.name : Operation → String
  | .query => "Query"
  | .scan => "Scan"
  | .get => "GetItem"
  | .put => "PutItem"
  | .update => "UpdateItem"
  | .delete => "DeleteItem"

end ItemSchema
