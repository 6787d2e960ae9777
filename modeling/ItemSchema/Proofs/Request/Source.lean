import ItemSchema.Proofs.Expression.Run
import ItemSchema.Request.Get
import ItemSchema.Request.Update

/-! The expressions of a request, and what they are compiled from. -/
namespace ItemSchema

/-- The calls that put together a request of any kind. -/
inductive RequestCalls where
  | query (calls : List QueryCall)
  | scan (calls : List SearchCall)
  | get (calls : List GetCall)
  | put (calls : List PutCall)
  | update (calls : List UpdateCall)
  | delete (calls : List DeleteCall)

def Table.request (table : Table) : RequestCalls → Except Error Request
  | .query calls => .query <$> table.query calls
  | .scan calls => .scan <$> table.scan calls
  | .get calls => .get <$> table.get calls
  | .put calls => .put <$> table.put calls
  | .update calls => .update <$> table.update calls
  | .delete calls => .delete <$> table.delete calls

namespace Request

/-- The expressions in the order in which they are compiled. -/
def expressions : Request → List String
  | .query r => r.keyCondition :: (r.filter.toList ++ r.projection.toList)
  | .scan r => r.filter.toList ++ r.projection.toList
  | .get r => r.projection.toList
  | .put r => r.condition.toList
  | .update r => r.update :: r.condition.toList
  | .delete r => r.condition.toList

def names : Request → Record String
  | .query r => r.aliases.names
  | .scan r => r.aliases.names
  | .get r => r.names
  | .put r => r.aliases.names
  | .update r => r.aliases.names
  | .delete r => r.aliases.names

def values : Request → Record Wire
  | .query r => r.aliases.values
  | .scan r => r.aliases.values
  | .get _ => []
  | .put r => r.aliases.values
  | .update r => r.aliases.values
  | .delete r => r.aliases.values

end Request

/-- At most one condition. -/
def conditionSources (c : Option Condition) : List ExpressionSource :=
  c.toList.map .condition

/-- Without paths there is no projection. -/
def projectionSources (ps : List Path) : List ExpressionSource :=
  if ps.isEmpty then [] else [.projection ps]

def Search.sources (search : Search) : List ExpressionSource :=
  conditionSources search.filter ++ projectionSources search.projection

def Query.sources (query : Query) : List ExpressionSource :=
  conditionSources query.keyCondition ++ query.search.sources

def Update.sources (update : Update) : List ExpressionSource :=
  .update update.actions :: conditionSources update.write.condition

/-- What the expressions of a request come from after all calls. -/
def Table.sources (table : Table) : RequestCalls → Except Error (List ExpressionSource)
  | .query calls => do
    let query ← calls.foldlM (Query.add table) (.empty table)
    return query.sources
  | .scan calls => do
    let search ← calls.foldlM (Search.add table .full) (.empty table)
    return search.sources
  | .get calls => do
    let get ← calls.foldlM (Get.add table) (.empty table)
    return projectionSources get.projection
  | .put calls => do
    let put ← calls.foldlM (Put.add table) (.empty table)
    return conditionSources (put.condition table)
  | .update calls => do
    let update ← calls.foldlM (Update.add table) (.empty table)
    return update.sources
  | .delete calls => do
    let delete ← calls.foldlM (Delete.add table) (.empty table)
    return conditionSources delete.write.condition

/-- The expressions are compiled in a row, starting without aliases, and the aliases that there are
then are those of the request. -/
structure Request.WrittenFrom (r : Request) (stems : AliasStems) (sources : List ExpressionSource)
    (t : Aliases) : Prop where
  run : Aliases.WritesAll stems .empty sources r.expressions t
  names : r.names = (t.tables stems).names
  values : r.values = (t.tables stems).values

namespace Aliases

variable {stems : AliasStems}

theorem compileOptional_writes (admissible : stems.Admissible) {t u : Aliases}
    (compiled : t.compileOptional stems c = (u, .ok text)) :
    WritesAll stems t (conditionSources c) text.toList u := by
  cases c with
  | none =>
    cases compiled
    exact .nil
  | some c =>
    obtain ⟨rfl, some⟩ := Prod.mk.inj compiled
    obtain ⟨s, made, rfl⟩ := map_eq_ok.mp some
    obtain ⟨_, _, writes⟩ := compileCondition_writes admissible
      (Prod.ext rfl made : t.compileCondition stems c = (_, .ok s))
    exact writes.alone

theorem compileProjection?_writes (admissible : stems.Admissible) (t : Aliases) (ps : List Path) :
    WritesAll stems t (projectionSources ps) (t.compileProjection? stems ps).2.toList
      (t.compileProjection? stems ps).1 := by
  rw [projectionSources, compileProjection?]
  split
  · exact .nil
  · obtain ⟨_, writes⟩ := compileProjection_writes admissible t ps
    exact writes.alone

/-- A projection has no values. -/
theorem compileProjection?_values (t : Aliases) (stems : AliasStems) (ps : List Path) :
    (t.compileProjection? stems ps).1.values = t.values := by
  rw [compileProjection?]
  split
  · rfl
  · exact t.paths_values ps

end Aliases

section

variable {table : Table}

theorem Table.admissible (table : Table) : table.config.stems.Admissible :=
  TableConfig.admissible_of_check table.config_ok

theorem Search.request_writes {search : Search} {t : Aliases}
    (built : search.request table t = .ok r) :
    ∃ u, Aliases.WritesAll table.config.stems t search.sources
      (r.filter.toList ++ r.projection.toList) u ∧ r.aliases = u.tables table.config.stems := by
  rw [Search.request] at built
  rcases compiled : t.compileOptional table.config.stems search.filter with ⟨u, filter⟩
  rw [compiled] at built
  simp only [bind_eq_ok, except_pure, Except.ok.injEq] at built
  obtain ⟨text, rfl, limit, _, rfl⟩ := built
  have filter := Aliases.compileOptional_writes table.admissible compiled
  have projection := Aliases.compileProjection?_writes table.admissible u search.projection
  exact ⟨_, filter.append projection, rfl⟩

theorem Write.request_writes {write : Write} {t : Aliases}
    (built : write.request table t = .ok r) :
    ∃ u, Aliases.WritesAll table.config.stems t (conditionSources write.condition)
      r.condition.toList u ∧ r.aliases = u.tables table.config.stems := by
  rw [Write.request] at built
  rcases compiled : t.compileOptional table.config.stems write.condition with ⟨u, condition⟩
  rw [compiled] at built
  simp only [bind_eq_ok, except_pure, Except.ok.injEq] at built
  obtain ⟨text, rfl, rfl⟩ := built
  exact ⟨u, Aliases.compileOptional_writes table.admissible compiled, rfl⟩

theorem Query.request_written {query : Query} (built : query.request table = .ok r) :
    ∃ t, (Request.query r).WrittenFrom table.config.stems query.sources t := by
  rw [Query.request] at built
  cases key : query.keyCondition with
  | none =>
    rw [key] at built
    contradiction
  | some c =>
    rw [key] at built
    rcases compiled : Aliases.empty.compileCondition table.config.stems c with ⟨u, condition⟩
    simp only [compiled, bind_eq_ok, except_pure, Except.ok.injEq] at built
    obtain ⟨text, rfl, search, searched, rfl⟩ := built
    obtain ⟨_, _, first⟩ := Aliases.compileCondition_writes table.admissible compiled
    obtain ⟨v, rest, tables⟩ := Search.request_writes searched
    refine ⟨v, ?_, congrArg AliasTables.names tables, congrArg AliasTables.values tables⟩
    rw [Query.sources, key]
    exact .cons first rest

theorem Get.request_written {get : Get} (built : get.request table = .ok r) :
    ∃ t, (Request.get r).WrittenFrom table.config.stems (projectionSources get.projection) t := by
  rw [Get.request] at built
  cases key : get.key with
  | none =>
    rw [key] at built
    contradiction
  | some item =>
    rw [key] at built
    obtain rfl := Except.ok.inj built
    have run := Aliases.compileProjection?_writes table.admissible .empty get.projection
    have values := Aliases.compileProjection?_values .empty table.config.stems get.projection
    refine ⟨_, run, rfl, ?_⟩
    simp only [Aliases.tables, values]
    rfl

theorem Put.request_written {put : Put} (built : put.request table = .ok r) :
    ∃ t, (Request.put r).WrittenFrom table.config.stems (conditionSources (put.condition table))
      t := by
  rw [Put.request] at built
  cases item : put.item with
  | none =>
    rw [item] at built
    contradiction
  | some item' =>
    rw [item] at built
    simp only [bind_eq_ok, except_pure, Except.ok.injEq] at built
    obtain ⟨write, written, rfl⟩ := built
    obtain ⟨t, run, tables⟩ := Write.request_writes written
    exact ⟨t, run, congrArg AliasTables.names tables, congrArg AliasTables.values tables⟩

theorem Update.request_written {update : Update} (built : update.request table = .ok r) :
    ∃ t, (Request.update r).WrittenFrom table.config.stems update.sources t := by
  rw [Update.request] at built
  cases key : update.key with
  | none =>
    rw [key] at built
    contradiction
  | some item =>
    rw [key] at built
    dsimp only at built
    split at built
    · contradiction
    · simp only [except_pure, bind_eq_ok, Except.ok.injEq] at built
      obtain ⟨write, written, rfl⟩ := built
      obtain ⟨_, _, first⟩ := Aliases.compileUpdate_writes table.admissible .empty update.actions
      obtain ⟨t, rest, tables⟩ := Write.request_writes written
      refine ⟨t, ?_, congrArg AliasTables.names tables, congrArg AliasTables.values tables⟩
      exact .cons first rest

theorem Delete.request_written {delete : Delete} (built : delete.request table = .ok r) :
    ∃ t, (Request.delete r).WrittenFrom table.config.stems
      (conditionSources delete.write.condition) t := by
  rw [Delete.request] at built
  cases key : delete.key with
  | none =>
    rw [key] at built
    contradiction
  | some item =>
    rw [key] at built
    simp only [bind_eq_ok, except_pure, Except.ok.injEq] at built
    obtain ⟨write, written, rfl⟩ := built
    obtain ⟨t, run, tables⟩ := Write.request_writes written
    exact ⟨t, run, congrArg AliasTables.names tables, congrArg AliasTables.values tables⟩

/-- Whatever builds a request, its expressions come from what the calls have left. -/
theorem Table.request_written {calls : RequestCalls} (built : table.request calls = .ok r) :
    ∃ sources t, table.sources calls = .ok sources ∧
      r.WrittenFrom table.config.stems sources t := by
  cases calls with
  | query calls =>
    obtain ⟨request, made, rfl⟩ := map_eq_ok.mp built
    obtain ⟨query, folded, made⟩ := bind_eq_ok.mp made
    obtain ⟨t, written⟩ := Query.request_written made
    exact ⟨_, t, bind_eq_ok.mpr ⟨query, folded, rfl⟩, written⟩
  | scan calls =>
    obtain ⟨request, made, rfl⟩ := map_eq_ok.mp built
    obtain ⟨search, folded, made⟩ := bind_eq_ok.mp made
    obtain ⟨t, run, tables⟩ := Search.request_writes made
    exact ⟨_, t, bind_eq_ok.mpr ⟨search, folded, rfl⟩, run, congrArg AliasTables.names tables,
      congrArg AliasTables.values tables⟩
  | get calls =>
    obtain ⟨request, made, rfl⟩ := map_eq_ok.mp built
    obtain ⟨get, folded, made⟩ := bind_eq_ok.mp made
    obtain ⟨t, written⟩ := Get.request_written made
    exact ⟨_, t, bind_eq_ok.mpr ⟨get, folded, rfl⟩, written⟩
  | put calls =>
    obtain ⟨request, made, rfl⟩ := map_eq_ok.mp built
    obtain ⟨put, folded, made⟩ := bind_eq_ok.mp made
    obtain ⟨t, written⟩ := Put.request_written made
    exact ⟨_, t, bind_eq_ok.mpr ⟨put, folded, rfl⟩, written⟩
  | update calls =>
    obtain ⟨request, made, rfl⟩ := map_eq_ok.mp built
    obtain ⟨update, folded, made⟩ := bind_eq_ok.mp made
    obtain ⟨t, written⟩ := Update.request_written made
    exact ⟨_, t, bind_eq_ok.mpr ⟨update, folded, rfl⟩, written⟩
  | delete calls =>
    obtain ⟨request, made, rfl⟩ := map_eq_ok.mp built
    obtain ⟨delete, folded, made⟩ := bind_eq_ok.mp made
    obtain ⟨t, written⟩ := Delete.request_written made
    exact ⟨_, t, bind_eq_ok.mpr ⟨delete, folded, rfl⟩, written⟩

end

end ItemSchema
