import ItemSchema.Error
import ItemSchema.Schema

/-! Checks on schemas. Names are unique and not empty at every level, keys stand at the top level
only, and every list has the attribute of its items. -/
namespace ItemSchema.Schema

mutual

/-- Checks what stands at a path; only at the top level may it be a key. -/
def checkAttribute (p : Path) (topLevel : Bool) : Attribute → Except Error Unit
  | .partitionKey _ | .sortKey _ =>
    if topLevel then .ok () else .error (.invalidSchema (.nestedKey p))
  | .scalar _ | .set _ => .ok ()
  | .list none => .error (.missingItemSchema p)
  | .list (some item) => checkAttribute (p ++ [.index 0]) false item
  | .map fields => checkFields p false [] fields

/-- Checks the fields below a path against the names before them. -/
def checkFields (p : Path) (topLevel : Bool) (seen : List String) :
    List (String × Attribute) → Except Error Unit
  | [] => .ok ()
  | (name, a) :: rest => do
    let here := p ++ [.field name]
    if seen.contains name then throw (.invalidSchema (.duplicate here))
    if name.isEmpty then throw (.invalidSchema .emptyName)
    checkAttribute here topLevel a
    checkFields p topLevel (name :: seen) rest

end

def partitionKeyCount (schema : Schema) : Nat :=
  schema.countP fun (_, a) => a.isPartitionKey

def sortKeyCount (schema : Schema) : Nat :=
  schema.countP fun (_, a) => a.isSortKey

/-- Checks that hold for schemas of entities and for schemas of maps. -/
def checkStructure (schema : Schema) : Except Error Unit := do
  checkFields [] true [] schema
  let partitionKeys := schema.partitionKeyCount
  let sortKeys := schema.sortKeyCount
  if 1 < partitionKeys || 1 < sortKeys then
    throw (.invalidSchema (.keyCounts partitionKeys sortKeys))

/-- An entity has exactly one partition key. -/
def checkEntity (schema : Schema) : Except Error Unit :=
  if schema.partitionKeyCount = 1 then .ok ()
  else .error (.invalidSchema (.partitionKeyCount schema.partitionKeyCount))

/-- A schema with the given fields, checked for its structure. -/
def ofFields (fields : List (String × Attribute)) : Except Error Schema := do
  checkStructure fields
  return fields

end ItemSchema.Schema
