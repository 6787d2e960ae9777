import ItemSchema.Proofs.Request.Source

/-! Builders that take every call. A failure does not end the row: the first one is remembered, the
call leaves what it was about empty, and later calls may fill it again. What is built in the end is
what a row that stops at the first failure builds. -/
namespace ItemSchema

structure Pending (σ : Type) where
  state : σ
  error : Option Error

namespace Pending

variable {σ κ ρ : Type} {add : σ → κ → Except Error σ} {spoil : σ → κ → σ}
  {request : σ → Except Error ρ}

/-- Takes a call. When it fails, the state is left as `spoil` says. -/
def take (add : σ → κ → Except Error σ) (spoil : σ → κ → σ) (pending : Pending σ) (call : κ) :
    Pending σ :=
  match add pending.state call with
  | .ok state => { pending with state := state }
  | .error e => ⟨spoil pending.state call, pending.error.or (some e)⟩

/-- A remembered error comes before anything that is wrong with the state. -/
def finish (request : σ → Except Error ρ) (pending : Pending σ) : Except Error ρ :=
  match pending.error with
  | some e => .error e
  | none => request pending.state

/-- Takes all calls and builds the request. -/
def build (add : σ → κ → Except Error σ) (spoil : σ → κ → σ) (request : σ → Except Error ρ)
    (state : σ) (calls : List κ) : Except Error ρ :=
  (calls.foldl (take add spoil) ⟨state, none⟩).finish request

/-- No call makes a builder forget its error. -/
theorem finish_remembered (state : σ) (e : Error) (calls : List κ) :
    (calls.foldl (take add spoil) ⟨state, some e⟩).finish request = .error e := by
  induction calls generalizing state with
  | nil => rfl
  | cons call rest ih =>
    rw [List.foldl_cons, take]
    cases add state call with
    | error _ => exact ih (spoil state call)
    | ok next => exact ih next

theorem build_eq (state : σ) (calls : List κ) :
    build add spoil request state calls = (do request (← calls.foldlM add state)) := by
  induction calls generalizing state with
  | nil => rfl
  | cons call rest ih =>
    rw [build, List.foldl_cons, List.foldlM_cons, take]
    cases add state call with
    | error e => exact finish_remembered (spoil state call) e rest
    | ok next => exact ih next

end Pending

/-! What failing calls leave behind. -/

def Search.spoil (search : Search) : SearchCall → Search
  | .filter _ => { search with filter := none }
  | .projection _ => { search with projection := [] }
  | .offset _ | .limit _ | .capacity _ => search

def Query.spoil (query : Query) : QueryCall → Query
  | .keyCondition _ => { query with keyCondition := none }
  | .search call => { query with search := query.search.spoil call }

def Get.spoil (get : Get) : GetCall → Get
  | .key _ => { get with key := none }
  | .projection _ => { get with projection := [] }
  | .capacity _ => get

def Write.spoil (write : Write) : WriteCall → Write
  | .condition _ => { write with condition := none }
  | .returnValues _ => { write with returnValues := none }
  | .capacity _ | .metrics _ => write

def Put.spoil (put : Put) : PutCall → Put
  | .item _ => { put with item := none }
  | .throwIfExists => put
  | .write call => { put with write := put.write.spoil call }

/-- The actions that there are stay. -/
def Update.spoil (update : Update) : UpdateCall → Update
  | .key _ => { update with key := none }
  | .set _ _ | .remove _ | .delete _ _ => update
  | .write call => { update with write := update.write.spoil call }

def Delete.spoil (delete : Delete) : DeleteCall → Delete
  | .key _ => { delete with key := none }
  | .write call => { delete with write := delete.write.spoil call }

/-- The request that is built when no call is skipped. -/
def Table.requestAfterAll (table : Table) : RequestCalls → Except Error Request
  | .query calls => .query <$>
    Pending.build (Query.add table) Query.spoil (Query.request table) (.empty table) calls
  | .scan calls => .scan <$>
    Pending.build (Search.add table .full) Search.spoil (·.request table .empty) (.empty table)
      calls
  | .get calls => .get <$>
    Pending.build (Get.add table) Get.spoil (Get.request table) (.empty table) calls
  | .put calls => .put <$>
    Pending.build (Put.add table) Put.spoil (Put.request table) (.empty table) calls
  | .update calls => .update <$>
    Pending.build (Update.add table) Update.spoil (Update.request table) (.empty table) calls
  | .delete calls => .delete <$>
    Pending.build (Delete.add table) Delete.spoil (Delete.request table) (.empty table) calls

theorem Table.requestAfterAll_eq (table : Table) (calls : RequestCalls) :
    table.requestAfterAll calls = table.request calls := by
  cases calls with
  | query calls | scan calls | get calls | put calls | update calls | delete calls =>
    rw [requestAfterAll, Pending.build_eq]
    rfl

end ItemSchema
