import ItemSchema.Proofs.Expression.Meaning
import ItemSchema.Proofs.Request.Calls
import ItemSchema.Proofs.Request.Source

/-! Keys and other attributes in queries. The store looks up items by the key condition and applies
the filter to what it has found, so the two must not have an attribute in common. -/
namespace ItemSchema

section

variable {table : Table} {stems : AliasStems}

theorem Aliases.compileOptional_grows {t u : Aliases} {source : Option Condition}
    (compiled : t.compileOptional stems source = (u, result)) : t.Grows u := by
  cases source with
  | none =>
    cases compiled
    exact .refl
  | some c =>
    cases compiled
    exact t.condition_grows c

/-- An optional condition that was compiled is read back with any later tables. -/
theorem Aliases.condition?_compileOptional (admissible : stems.Admissible) {t u : Aliases}
    {source : Option Condition} (rooted : ∀ c ∈ source, c.Rooted)
    (compiled : t.compileOptional stems source = (u, .ok (some text))) (later : u.Grows final) :
    ∃ c, source = some c ∧ (final.tables stems).condition? text = some c.grouped := by
  cases source with
  | none => cases compiled
  | some c =>
    obtain ⟨rfl, written⟩ := Prod.mk.inj compiled
    obtain ⟨_, made, same⟩ := map_eq_ok.mp written
    cases same
    exact ⟨c, rfl, condition?_compileCondition admissible (rooted c rfl) (Prod.ext rfl made) later⟩

/-- What a search compiles in front of its projection, and the aliases that there are in the end. -/
theorem Search.request_compiled {search : Search} {t : Aliases}
    (made : search.request table t = .ok r) :
    ∃ u final, t.compileOptional table.config.stems search.filter = (u, .ok r.filter) ∧
      u.Grows final ∧ r.aliases = final.tables table.config.stems := by
  rw [Search.request] at made
  rcases compiled : t.compileOptional table.config.stems search.filter with ⟨u, filter⟩
  rw [compiled] at made
  simp only [bind_eq_ok, except_pure, Except.ok.injEq] at made
  obtain ⟨text, rfl, _, _, rfl⟩ := made
  exact ⟨u, _, rfl,
    (Aliases.compileProjection?_writes table.admissible u search.projection).grows, rfl⟩

theorem Query.request_compiled {query : Query} (made : query.request table = .ok r) :
    ∃ c t u final, query.keyCondition = some c ∧
      Aliases.empty.compileCondition table.config.stems c = (t, .ok r.keyCondition) ∧
      t.compileOptional table.config.stems query.search.filter = (u, .ok r.filter) ∧
      u.Grows final ∧ r.aliases = final.tables table.config.stems := by
  rw [Query.request] at made
  cases key : query.keyCondition with
  | none =>
    rw [key] at made
    contradiction
  | some c =>
    rw [key] at made
    rcases compiled : Aliases.empty.compileCondition table.config.stems c with ⟨t, keyCondition⟩
    simp only [compiled, bind_eq_ok, except_pure, Except.ok.injEq] at made
    obtain ⟨text, rfl, search, searched, rfl⟩ := made
    obtain ⟨u, final, filter, later, aliases⟩ := Search.request_compiled searched
    exact ⟨c, t, u, final, rfl, compiled, filter, later, aliases⟩

/-- The two conditions of a query, as they are read back from the request. -/
theorem Table.query_conditions (asked : table.query calls = .ok r) :
    (∃ key, r.aliases.condition? r.keyCondition = some key.grouped ∧
        (table.view .keysOnly).Builds key) ∧
      ∀ text, r.filter = some text → ∃ filter, r.aliases.condition? text = some filter.grouped ∧
        (table.view .nonKeys).Builds filter := by
  obtain ⟨query, taken, made⟩ := bind_eq_ok.mp asked
  have built := Query.built taken
  obtain ⟨key, t, u, final, given, keyCompiled, filterCompiled, later, aliases⟩ :=
    Query.request_compiled made
  rw [aliases]
  constructor
  · have builds := built.keyCondition key given
    have grows := (Aliases.compileOptional_grows filterCompiled).trans later
    have read :=
      Aliases.condition?_compileCondition table.admissible builds.rooted keyCompiled grows
    exact ⟨key, read, builds⟩
  · intro text present
    rw [present] at filterCompiled
    obtain ⟨filter, given, read⟩ := Aliases.condition?_compileOptional table.admissible
      (fun c given => (built.filter c given).rooted) filterCompiled later
    exact ⟨filter, read, built.filter filter given⟩

end

/-- Every path into a schema is seen through one of the views of keys and of everything else, and
as it is in the schema; keys are found at the top level only. So the two conditions of a query are
about different attributes. -/
theorem Schema.keys_apart (schema : Schema) :
    (∀ (p : Path) name a, p.firstField? = some name → schema.get? name = some a →
      SchemaView.contains ⟨schema, .nonKeys⟩ name = !SchemaView.contains ⟨schema, .keysOnly⟩ name ∧
        ∀ scope, (SchemaView.contains ⟨schema, scope⟩ name = true →
            SchemaView.resolve ⟨schema, scope⟩ p = schema.resolve p) ∧
          (SchemaView.contains ⟨schema, scope⟩ name = false →
            SchemaView.resolve ⟨schema, scope⟩ p = .error (.pathNotFound p))) ∧
      (∀ p : Path, (∀ name, p.firstField? = some name → schema.get? name = none) →
        ∀ scope, SchemaView.resolve ⟨schema, scope⟩ p = .error (.pathNotFound p)) ∧
      (∀ p a, SchemaView.resolve ⟨schema, .keysOnly⟩ p = .ok a →
        ∃ name, p = [.field name] ∧ schema.get? name = some a ∧ a.isKey = true) ∧
      (schema.Accepted → ∀ p a, SchemaView.resolve ⟨schema, .nonKeys⟩ p = .ok a →
        a.isKey = false) ∧
      ∀ (table : Table) calls r, table.schema = schema → table.query calls = .ok r →
        (∃ key, r.aliases.condition? r.keyCondition = some key ∧
            ∀ p operator ws, .comparison p operator ws ∈ key.subtrees →
              ∃ name, p = [.field name] ∧ schema.isPrimaryKey name = true) ∧
          ∀ text, r.filter = some text → ∃ filter, r.aliases.condition? text = some filter ∧
            ∀ p operator ws, .comparison p operator ws ∈ filter.subtrees →
              ∃ name rest, p = .field name :: rest ∧ schema.isPrimaryKey name = false := by
  refine ⟨?_, ?_, ?_, ?_, ?_⟩
  · intro p name a starts found
    refine ⟨SchemaView.contains_divided found, fun scope => ⟨?_, ?_⟩⟩
    · exact SchemaView.resolve_of_contains starts
    · intro hidden
      apply SchemaView.resolve_of_hidden
      intro other starts'
      cases starts.symm.trans starts'
      exact hidden
  · intro p outside scope
    apply SchemaView.resolve_of_hidden
    intro name starts
    rw [Bool.eq_false_iff]
    intro shown
    obtain ⟨a, found⟩ := SchemaView.get?_of_contains shown
    rw [outside name starts] at found
    contradiction
  · intro p a
    exact SchemaView.resolve_keysOnly
  · intro accepted p a
    exact SchemaView.resolve_nonKeys accepted.wellFormed.toLevel
  · rintro table calls r rfl asked
    obtain ⟨⟨key, keyRead, keyBuilds⟩, filters⟩ := Table.query_conditions asked
    constructor
    · refine ⟨_, keyRead, ?_⟩
      intro p operator ws node
      obtain ⟨a, resolved⟩ := keyBuilds.resolves (ConditionTree.mem_subtrees_grouped node)
      obtain ⟨name, rfl, found, isKey⟩ := SchemaView.resolve_keysOnly resolved
      exact ⟨name, rfl, (isPrimaryKey_of_get? found).trans isKey⟩
    · intro text present
      obtain ⟨filter, read, builds⟩ := filters text present
      refine ⟨_, read, ?_⟩
      intro p operator ws node
      obtain ⟨a, resolved⟩ := builds.resolves (ConditionTree.mem_subtrees_grouped node)
      obtain ⟨name, rest, b, rfl, shown, found, _⟩ := SchemaView.resolve_ok_iff.mp resolved
      have notKey := (SchemaView.contains_nonKeys found).symm.trans shown
      rw [Bool.not_eq_true'] at notKey
      exact ⟨name, rest, rfl, (isPrimaryKey_of_get? found).trans notKey⟩

namespace Harbor

def schema : Schema :=
  [("ship", .partitionKey .string), ("day", .sortKey .string), ("berth", .scalar .number),
    ("cargo", .map [("weight", .scalar .number)])]

def table : Table :=
  ⟨.ofName "harbor", schema, rfl, rfl⟩

def arrivals : List QueryCall :=
  [.keyCondition (.logical .and [
      .comparison "ship" (.compare .eq) (.string "x"),
      .named "day" "begins_with" (.string "2024")]),
    .search (.filter (.absent "berth"))]

theorem arrivals_apart :
    (∀ p : Path, p = [.field "cargo", .field "weight"] →
        SchemaView.resolve ⟨schema, .nonKeys⟩ p = .ok (.scalar .number) ∧
          SchemaView.resolve ⟨schema, .keysOnly⟩ p = .error (.pathNotFound p) ∧
          (Attribute.scalar .number).isKey = false) ∧
      (∀ p : Path, p = [.field "crew"] → ∀ scope,
        SchemaView.resolve ⟨schema, scope⟩ p = .error (.pathNotFound p)) ∧
      (∃ name, [.field "day"] = [Segment.field name] ∧
        schema.get? name = some (.sortKey .string) ∧ (Attribute.sortKey .string).isKey = true) ∧
      ∃ r filter, table.query arrivals = .ok r ∧ r.filter = some "attribute_not_exists(#f2)" ∧
        r.aliases.condition? "attribute_not_exists(#f2)" = some filter ∧
        ∀ p operator ws, .comparison p operator ws ∈ filter.subtrees →
          ∃ name rest, p = .field name :: rest ∧ schema.isPrimaryKey name = false := by
  obtain ⟨divided, outside, keys, notKey, queries⟩ := Schema.keys_apart schema
  have accepted : schema.Accepted := .inr ⟨schema, rfl⟩
  refine ⟨?_, ?_, keys [.field "day"] _ rfl, ?_⟩
  · rintro p rfl
    obtain ⟨_, scopes⟩ := divided [.field "cargo", .field "weight"] "cargo" _ rfl rfl
    have shown := (scopes .nonKeys).1 rfl
    exact ⟨shown, (scopes .keysOnly).2 rfl, notKey accepted _ _ shown⟩
  · rintro p rfl
    apply outside [.field "crew"]
    intro name starts
    cases starts
    rfl
  · obtain ⟨r, asked, written⟩ : ∃ r, table.query arrivals = .ok r ∧
        r.filter = some "attribute_not_exists(#f2)" := ⟨_, rfl, rfl⟩
    obtain ⟨_, filters⟩ := queries table arrivals r rfl asked
    obtain ⟨filter, read, comparisons⟩ := filters _ written
    exact ⟨r, filter, asked, written, read, comparisons⟩

end Harbor

end ItemSchema
