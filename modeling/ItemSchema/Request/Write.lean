import ItemSchema.Request.Search

/-! Writes: putting, updating and deleting one item, perhaps on a condition. -/
namespace ItemSchema

/-- What a write can return beside nothing. -/
def Operation.returnable : Operation → List ReturnValues
  | .put => [.allOld, .allNew]
  | .update => [.allOld, .updatedOld, .allNew, .updatedNew]
  | .delete => [.allOld]
  | .query | .scan | .get => []

def Operation.checkReturnValues (operation : Operation) (mode : ReturnValues) :
    Except Error Unit :=
  if mode = .none || operation.returnable.contains mode then .ok ()
  else .error (.invalidOperand .request (.returnValues operation mode))

inductive WriteCall where
  | condition (draft : ConditionDraft)
  | returnValues (mode : ReturnValues)
  | capacity (level : CapacityLevel)
  | metrics (metrics : CollectionMetrics)

/-- What all writes are made of. -/
structure Write where
  condition : Option Condition
  returnValues : Option ReturnValues
  capacity : Option CapacityLevel
  metrics : Option CollectionMetrics

namespace Write

def empty (table : Table) : Write :=
  ⟨none, none, table.config.capacity, none⟩

def add (table : Table) (operation : Operation) (write : Write) : WriteCall → Except Error Write
  | .condition draft => do
    return { write with condition := some (← (table.view .full).condition draft) }
  | .returnValues mode => do
    operation.checkReturnValues mode
    return { write with returnValues := some mode }
  | .capacity level => .ok { write with capacity := some level }
  | .metrics metrics => .ok { write with metrics := some metrics }

/-- The common part of the request, written with aliases behind those that there are. -/
def request (table : Table) (write : Write) (t : Aliases) : Except Error WriteRequest := do
  let stems := table.config.stems
  let (t, condition) := t.compileOptional stems write.condition
  return {
    tableName := table.name
    condition := ← condition
    aliases := t.tables stems
    returnValues := write.returnValues
    capacity := write.capacity
    metrics := write.metrics
  }

end Write

inductive PutCall where
  | item (v : Value)
  | throwIfExists
  | write (call : WriteCall)

structure Put where
  item : Option Item
  throwIfExists : Bool
  write : Write

namespace Put

def empty (table : Table) : Put :=
  ⟨none, false, .empty table⟩

/-- An item with all of its keys. -/
def encodeItem (table : Table) (v : Value) : Except Error Item := do
  let item ← table.encodeItem v
  match table.schema.keyNames.find? fun name => (Record.find? name item).isNone with
  | some name => throw (.invalidOperand (.path [.field name]) .missingKeyAttribute)
  | none => return item

def add (table : Table) (put : Put) : PutCall → Except Error Put
  | .item v => do return { put with item := some (← encodeItem table v) }
  | .throwIfExists => .ok { put with throwIfExists := true }
  | .write call => do return { put with write := ← put.write.add table .put call }

/-- No item has the key yet. Comparisons of the partition key admit nothing but `=`, and this one is
made without asking. -/
def absent (table : Table) : Condition :=
  .comparison [.field table.partitionKey] .notExists []

/-- The condition of the caller, and that the item is new if that is wanted. -/
def condition (table : Table) (put : Put) : Option Condition :=
  if put.throwIfExists then
    match put.write.condition with
    | some c => some (.logical .and [c, absent table])
    | none => some (absent table)
  else put.write.condition

def request (table : Table) (put : Put) : Except Error PutRequest := do
  let some item := put.item | throw (.invalidOperand .request (.missingPart .put .item))
  let write := { put.write with condition := put.condition table }
  return { ← write.request table .empty with item := item }

end Put

def Table.put (table : Table) (calls : List PutCall) : Except Error PutRequest := do
  let put ← calls.foldlM (Put.add table) (.empty table)
  put.request table

inductive DeleteCall where
  | key (v : Value)
  | write (call : WriteCall)

structure Delete where
  key : Option Item
  write : Write

namespace Delete

def empty (table : Table) : Delete :=
  ⟨none, .empty table⟩

def add (table : Table) (delete : Delete) : DeleteCall → Except Error Delete
  | .key v => do return { delete with key := some (← table.encodeKey v) }
  | .write call => do return { delete with write := ← delete.write.add table .delete call }

def request (table : Table) (delete : Delete) : Except Error DeleteRequest := do
  let some key := delete.key | throw (.invalidOperand .request (.missingPart .delete .key))
  return { ← delete.write.request table .empty with key := key }

end Delete

def Table.delete (table : Table) (calls : List DeleteCall) : Except Error DeleteRequest := do
  let delete ← calls.foldlM (Delete.add table) (.empty table)
  delete.request table

end ItemSchema
