import ItemSchema.Proofs.Expression.Building
import ItemSchema.Request.Get
import ItemSchema.Request.Update

/-! What a row of calls leaves behind. The conditions of a request were put together over the view
that the call for them sees. -/
namespace ItemSchema

/-- What holds at first and is kept by every call holds after all calls. -/
theorem foldlM_keeps {add : σ → κ → Except ε σ} {P : σ → Prop}
    (keeps : ∀ s call s', P s → add s call = .ok s' → P s') {calls : List κ} {s s' : σ}
    (start : P s) (taken : calls.foldlM add s = .ok s') : P s' := by
  induction calls generalizing s with
  | nil =>
    cases taken
    exact start
  | cons call rest ih =>
    rw [List.foldlM_cons, bind_eq_ok] at taken
    obtain ⟨next, first, others⟩ := taken
    exact ih (keeps s call next start first) others

section

variable {table : Table}

/-- Conditions that were put together over what a view of the table shows. -/
def Table.Builds (table : Table) (scope : ViewScope) (condition : Option Condition) : Prop :=
  ∀ c ∈ condition, (table.view scope).Builds c

theorem Table.builds_none (table : Table) (scope : ViewScope) : table.Builds scope none := by
  intro c none
  contradiction

theorem Table.builds_draft {scope : ViewScope} {draft : ConditionDraft}
    (checked : (table.view scope).condition draft = .ok c) : table.Builds scope (some c) := by
  intro c' same
  cases same
  exact SchemaView.builds_of_condition checked

theorem Search.add_builds {search : Search} {call : SearchCall}
    (builds : table.Builds scope search.filter) (added : search.add table scope call = .ok after) :
    table.Builds scope after.filter := by
  cases call with
  | filter draft =>
    obtain ⟨c, checked, same⟩ := bind_eq_ok.mp added
    cases same
    exact Table.builds_draft checked
  | projection paths =>
    obtain ⟨ps, _, same⟩ := bind_eq_ok.mp added
    cases same
    exact builds
  | offset | limit | capacity =>
    cases added
    exact builds

/-- The key condition sees keys only, and the filter everything else. -/
structure Query.Built (table : Table) (query : Query) : Prop where
  keyCondition : table.Builds .keysOnly query.keyCondition
  filter : table.Builds .nonKeys query.search.filter

theorem Query.add_built {query : Query} {call : QueryCall} (built : query.Built table)
    (added : query.add table call = .ok after) : after.Built table := by
  cases call with
  | keyCondition draft =>
    obtain ⟨c, checked, same⟩ := bind_eq_ok.mp added
    cases same
    exact ⟨Table.builds_draft checked, built.filter⟩
  | search call =>
    obtain ⟨search, searched, same⟩ := bind_eq_ok.mp added
    cases same
    exact ⟨built.keyCondition, Search.add_builds built.filter searched⟩

theorem Write.add_builds {write : Write} {call : WriteCall}
    (builds : table.Builds .full write.condition)
    (added : write.add table operation call = .ok after) : table.Builds .full after.condition := by
  cases call with
  | condition draft =>
    obtain ⟨c, checked, same⟩ := bind_eq_ok.mp added
    cases same
    exact Table.builds_draft checked
  | returnValues mode =>
    obtain ⟨_, _, same⟩ := bind_eq_ok.mp added
    cases same
    exact builds
  | capacity | metrics =>
    cases added
    exact builds

theorem Put.add_builds {put : Put} {call : PutCall}
    (builds : table.Builds .full put.write.condition)
    (added : put.add table call = .ok after) : table.Builds .full after.write.condition := by
  cases call with
  | item v =>
    obtain ⟨item, _, same⟩ := bind_eq_ok.mp added
    cases same
    exact builds
  | throwIfExists =>
    cases added
    exact builds
  | write call =>
    obtain ⟨write, written, same⟩ := bind_eq_ok.mp added
    cases same
    exact Write.add_builds builds written

theorem Update.add_builds {update : Update} {call : UpdateCall}
    (builds : table.Builds .full update.write.condition)
    (added : update.add table call = .ok after) : table.Builds .full after.write.condition := by
  cases call with
  | key v =>
    obtain ⟨key, _, same⟩ := bind_eq_ok.mp added
    cases same
    exact builds
  | set path v | remove path | delete path v =>
    obtain ⟨p, _, rest⟩ := bind_eq_ok.mp added
    obtain ⟨action, _, same⟩ := bind_eq_ok.mp rest
    cases same
    exact builds
  | write call =>
    obtain ⟨write, written, same⟩ := bind_eq_ok.mp added
    cases same
    exact Write.add_builds builds written

theorem Delete.add_builds {delete : Delete} {call : DeleteCall}
    (builds : table.Builds .full delete.write.condition)
    (added : delete.add table call = .ok after) : table.Builds .full after.write.condition := by
  cases call with
  | key v =>
    obtain ⟨key, _, same⟩ := bind_eq_ok.mp added
    cases same
    exact builds
  | write call =>
    obtain ⟨write, written, same⟩ := bind_eq_ok.mp added
    cases same
    exact Write.add_builds builds written

theorem Search.built {calls : List SearchCall}
    (taken : calls.foldlM (Search.add table scope) (.empty table) = .ok search) :
    table.Builds scope search.filter :=
  foldlM_keeps (P := fun search : Search => table.Builds scope search.filter)
    (fun _ _ _ => Search.add_builds) (table.builds_none scope) taken

theorem Query.built {calls : List QueryCall}
    (taken : calls.foldlM (Query.add table) (.empty table) = .ok query) : query.Built table :=
  foldlM_keeps (fun _ _ _ => Query.add_built) ⟨table.builds_none _, table.builds_none _⟩ taken

theorem Put.built {calls : List PutCall}
    (taken : calls.foldlM (Put.add table) (.empty table) = .ok put) :
    table.Builds .full put.write.condition :=
  foldlM_keeps (P := fun put : Put => table.Builds .full put.write.condition)
    (fun _ _ _ => Put.add_builds) (table.builds_none _) taken

theorem Update.built {calls : List UpdateCall}
    (taken : calls.foldlM (Update.add table) (.empty table) = .ok update) :
    table.Builds .full update.write.condition :=
  foldlM_keeps (P := fun update : Update => table.Builds .full update.write.condition)
    (fun _ _ _ => Update.add_builds) (table.builds_none _) taken

theorem Delete.built {calls : List DeleteCall}
    (taken : calls.foldlM (Delete.add table) (.empty table) = .ok delete) :
    table.Builds .full delete.write.condition :=
  foldlM_keeps (P := fun delete : Delete => table.Builds .full delete.write.condition)
    (fun _ _ _ => Delete.add_builds) (table.builds_none _) taken

end

end ItemSchema
