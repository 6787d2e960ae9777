import ItemSchema.Request.Search

/-! Fetching one item by its key. -/
namespace ItemSchema

inductive GetCall where
  | key (v : Value)
  | projection (paths : List PathRef)
  | capacity (level : CapacityLevel)

structure Get where
  key : Option Item
  projection : List Path
  capacity : Option CapacityLevel

namespace Get

def empty (table : Table) : Get :=
  ⟨none, [], table.config.capacity⟩

def add (table : Table) (get : Get) : GetCall → Except Error Get
  | .key v => do return { get with key := some (← table.encodeKey v) }
  | .projection paths => do
    return { get with projection := ← paths.mapM (table.view .full).path }
  | .capacity level => .ok { get with capacity := some level }

/-- No expression of the request has values. -/
def request (table : Table) (get : Get) : Except Error GetRequest := do
  let some key := get.key | throw (.invalidOperand .request (.missingPart .get .key))
  let stems := table.config.stems
  let (t, projection) := Aliases.empty.compileProjection? stems get.projection
  return ⟨table.name, key, projection, (t.tables stems).names, get.capacity⟩

end Get

def Table.get (table : Table) (calls : List GetCall) : Except Error GetRequest := do
  let get ← calls.foldlM (Get.add table) (.empty table)
  get.request table

end ItemSchema
