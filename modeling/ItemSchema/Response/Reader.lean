import ItemSchema.Response
import ItemSchema.Wire.Reader

/-! Responses from JSON. Each known field may occur once; others need only be sound. -/
namespace ItemSchema

namespace Json

/-- An integer stands for the nearest number. -/
def readBinary64 (j : Json) : Except ReadError Binary64 := do
  match ← readNumber j with
  | .float x => return x
  | .integer n =>
    match Binary64.ofScaled? (n < 0) n.natAbs 0 with
    | some x => return x
    | none => throw .malformed

/-- A field that has not been read before. -/
def readOnce (name : String) (before : Option α) (reader : Json → Except ReadError α) (j : Json) :
    Except ReadError (Option α) :=
  if before.isSome then .error (.duplicateField name) else some <$> reader j

/-- Passes a field over. -/
def skip (j : Json) : Except ReadError Unit :=
  if j.passable then .ok () else .error .malformed

/-- Takes the members of an object one after another. -/
def readFields (start : α) (add : α → String × Json → Except ReadError α) (j : Json) :
    Except ReadError α := do
  let (members, fault) ← readMembers j
  let all ← members.foldlM add start
  noFault fault
  return all

end Json

/-- The fields of a consumed capacity that have been read. -/
structure ConsumedCapacity.Fields where
  tableName : Option String
  units : Option (Option Binary64)

def ConsumedCapacity.Fields.add (f : Fields) :
    String × Json → Except ReadError Fields
  | ("TableName", j) => do
    return { f with tableName := ← Json.readOnce "TableName" f.tableName Json.readString j }
  | ("CapacityUnits", j) => do
    let reader := Json.readOptional Json.readBinary64
    return { f with units := ← Json.readOnce "CapacityUnits" f.units reader j }
  | (_, j) => (fun _ => f) <$> Json.skip j

def ConsumedCapacity.ofJson (j : Json) : Except ReadError ConsumedCapacity := do
  let f ← Json.readFields ⟨none, none⟩ Fields.add j
  match f.tableName with
  | some tableName => return ⟨tableName, f.units.join⟩
  | none => throw (.missingField "TableName")

/-- The fields of a response that have been read. -/
structure Response.Fields where
  items : Option (List Item)
  item : Option (Option Item)
  attributes : Option (Option Item)
  consumed : Option (Option ConsumedCapacity)

def Response.readItems (j : Json) : Except ReadError (List Item) := do
  (← Json.readItems j).mapM Item.ofJson

def Response.Fields.add (f : Fields) : String × Json → Except ReadError Fields
  | ("Items", j) => do return { f with items := ← Json.readOnce "Items" f.items readItems j }
  | ("Item", j) => do
    return { f with item := ← Json.readOnce "Item" f.item (Json.readOptional Item.ofJson) j }
  | ("Attributes", j) => do
    let reader := Json.readOptional Item.ofJson
    return { f with attributes := ← Json.readOnce "Attributes" f.attributes reader j }
  | ("ConsumedCapacity", j) => do
    let reader := Json.readOptional ConsumedCapacity.ofJson
    return { f with consumed := ← Json.readOnce "ConsumedCapacity" f.consumed reader j }
  | (_, j) => (fun _ => f) <$> Json.skip j

def Response.ofJson (j : Json) : Except ReadError Response := do
  let f ← Json.readFields ⟨none, none, none, none⟩ Fields.add j
  return ⟨f.items.getD [], f.item.join, f.attributes.join, f.consumed.join⟩

def Response.ofText (text : String) : Except Error Response :=
  ((Json.parse text).read Response.ofJson).mapError .json

end ItemSchema
