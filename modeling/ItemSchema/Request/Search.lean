import ItemSchema.Expression.Draft
import ItemSchema.Expression.Statement
import ItemSchema.Request
import ItemSchema.Table

/-! Queries and scans. A request is put together by a row of calls: the first call that fails
decides, and otherwise the last call of each kind counts. -/
namespace ItemSchema

/-- The part of an answer that is wanted: some items behind those that are passed over, or all of
them. -/
structure Page where
  offset : Nat
  limit : Option Nat

/-- How many items the store has to look at. The count has 64 bits. -/
def Page.storeLimit (page : Page) : Except Error (Option Nat) :=
  match page.limit with
  | none => .ok none
  | some limit =>
    if limit = 0 then .error (.invalidOperand .request .zeroLimit)
    else if limit + page.offset < Nat.pow 2 64 then .ok (some (limit + page.offset))
    else .error (.invalidOperand .request (.windowTooLarge limit page.offset))

/-- The items of a page among all that the store looked at. -/
def ScanRequest.window (r : ScanRequest) (items : List α) : List α :=
  let rest := items.drop r.offset
  match r.limit with
  | none => rest
  | some limit => rest.take (limit - r.offset)

/-- A path that the view shows. -/
def SchemaView.path (view : SchemaView) (given : PathRef) : Except Error Path := do
  let p ← given.toPath
  let _ ← view.resolve p
  return p

namespace Aliases

def compileOptional (t : Aliases) (stems : AliasStems) :
    Option Condition → Aliases × Except Error (Option String)
  | none => (t, .ok none)
  | some c =>
    let (t, text) := t.compileCondition stems c
    (t, some <$> text)

/-- Without paths there is nothing to write. -/
def compileProjection? (t : Aliases) (stems : AliasStems) (paths : List Path) :
    Aliases × Option String :=
  if paths.isEmpty then (t, none)
  else
    let (t, text) := t.compileProjection stems paths
    (t, some text)

end Aliases

inductive SearchCall where
  | filter (draft : ConditionDraft)
  | projection (paths : List PathRef)
  | offset (count : Nat)
  | limit (count : Nat)
  | capacity (level : CapacityLevel)

/-- What queries and scans are made of. -/
structure Search where
  filter : Option Condition
  projection : List Path
  page : Page
  capacity : Option CapacityLevel

namespace Search

def empty (table : Table) : Search :=
  ⟨none, [], ⟨0, none⟩, table.config.capacity⟩

/-- Takes a call into account; filters see what `scope` says. -/
def add (table : Table) (scope : ViewScope) (search : Search) : SearchCall → Except Error Search
  | .filter draft => do
    return { search with filter := some (← (table.view scope).condition draft) }
  | .projection paths => do
    return { search with projection := ← paths.mapM (table.view .full).path }
  | .offset count => .ok { search with page := { search.page with offset := count } }
  | .limit count => .ok { search with page := { search.page with limit := some count } }
  | .capacity level => .ok { search with capacity := some level }

/-- The request, written with aliases behind those that there are. -/
def request (table : Table) (search : Search) (t : Aliases) : Except Error ScanRequest := do
  let stems := table.config.stems
  let (t, filter) := t.compileOptional stems search.filter
  let filter ← filter
  let (t, projection) := t.compileProjection? stems search.projection
  return {
    tableName := table.name
    filter := filter
    projection := projection
    aliases := t.tables stems
    limit := ← search.page.storeLimit
    capacity := search.capacity
    offset := search.page.offset
  }

end Search

namespace Table

def scan (table : Table) (calls : List SearchCall) : Except Error ScanRequest := do
  let search ← calls.foldlM (Search.add table .full) (.empty table)
  search.request table .empty

end Table

inductive QueryCall where
  | keyCondition (draft : ConditionDraft)
  | search (call : SearchCall)

structure Query where
  keyCondition : Option Condition
  search : Search

namespace Query

def empty (table : Table) : Query :=
  ⟨none, .empty table⟩

/-- The condition on the key sees keys only, and the filter sees none. -/
def add (table : Table) (query : Query) : QueryCall → Except Error Query
  | .keyCondition draft => do
    return { query with keyCondition := some (← (table.view .keysOnly).condition draft) }
  | .search call => do
    return { query with search := ← query.search.add table .nonKeys call }

def request (table : Table) (query : Query) : Except Error QueryRequest := do
  let some c := query.keyCondition
    | throw (.invalidOperand .request (.missingPart .query .keyCondition))
  let (t, keyCondition) := Aliases.empty.compileCondition table.config.stems c
  let keyCondition ← keyCondition
  return { ← query.search.request table t with keyCondition := keyCondition }

end Query

def Table.query (table : Table) (calls : List QueryCall) : Except Error QueryRequest := do
  let query ← calls.foldlM (Query.add table) (.empty table)
  query.request table

end ItemSchema
