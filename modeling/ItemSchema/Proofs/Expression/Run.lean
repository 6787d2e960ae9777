import ItemSchema.Proofs.Expression.Lookup
import ItemSchema.Proofs.Expression.Mention

/-! Several expressions that are compiled one after the other with the same aliases, as those of one
request are. -/
namespace ItemSchema

open Expression

namespace Aliases

/-- What compiling has to do with the text of an expression, whose aliases have these numbers in
their order. -/
structure Writes (stems : AliasStems) (t u : Aliases) (source : ExpressionSource) (text : String)
    (ns vs : List Nat) : Prop where
  grows : t.Grows u
  allocates : t.Allocates u ns vs
  mentions : Mentions stems (tokens text) ns vs
  found : ∀ final, u.Grows final → ns.mapM (fun i => final.names[i]?) = some source.names ∧
    vs.mapM (fun i => final.values[i]?) = some source.operands

theorem compileCondition_writes {stems : AliasStems} (admissible : stems.Admissible) {t : Aliases}
    {c : Condition} (compiled : t.compileCondition stems c = (u, .ok text)) :
    ∃ ns vs, Writes stems t u (.condition c) text ns vs := by
  obtain ⟨aliased, rfl, grows, compiles⟩ := compileCondition_compiles compiled
  refine ⟨aliased.allNames, aliased.allOperands, grows, compiles.allocates, ?_, ?_⟩
  · rw [(spells_conditionText admissible aliased).tokens_eq]
    exact mentions_condition admissible aliased
  · intro final later
    exact ConditionTree.resolve_names (compiles.found final later)

theorem compileProjection_writes {stems : AliasStems} (admissible : stems.Admissible) (t : Aliases)
    (ps : List Path) : ∃ ns, Writes stems t (t.compileProjection stems ps).1 (.projection ps)
      (t.compileProjection stems ps).2 ns [] := by
  refine ⟨_, t.paths_grows ps, t.paths_allocates ps, ?_, ?_⟩
  · have spells := spells_projectionText admissible (t.paths ps).2
    rw [compileProjection, spells.tokens_eq]
    exact mentions_projection admissible (t.paths ps).2
  · intro final later
    exact ⟨mapM_flatMap (fun p q => Segment.resolve_names) (paths_found t ps later), rfl⟩

theorem compileUpdate_writes {stems : AliasStems} (admissible : stems.Admissible) (t : Aliases)
    (as : List Action) : ∃ ns vs, Writes stems t (t.compileUpdate stems as).1 (.update as)
      (t.compileUpdate stems as).2 ns vs := by
  -- Aliases are allocated in the order of the actions, but stand in the text by clauses.
  have order := UpdateAction.byClause_perm (t.actions as).2
  have allocates := (t.actions_allocates as).perm (order.flatMap_right UpdateAction.names)
    (order.flatMap_right UpdateAction.operands)
  refine ⟨_, _, t.actions_grows as, allocates, ?_, ?_⟩
  · have spells := spells_updateText admissible (t.actions as).2
    rw [compileUpdate, spells.tokens_eq]
    exact mentions_update admissible (t.actions as).2
  · intro final later
    have found := UpdateAction.byClause_found (actions_found t as later)
    exact ⟨mapM_flatMap (fun a b resolved => (UpdateAction.resolve_parts resolved).2.1) found,
      mapM_flatMap (fun a b resolved => (UpdateAction.resolve_parts resolved).2.2) found⟩

/-- Expressions that are compiled in a row, each with the aliases of those before it. -/
inductive WritesAll (stems : AliasStems) :
    Aliases → List ExpressionSource → List String → Aliases → Prop where
  | nil : WritesAll stems t [] [] t
  | cons (first : Writes stems t u source text ns vs) (rest : WritesAll stems u sources texts v) :
      WritesAll stems t (source :: sources) (text :: texts) v

section

variable {stems : AliasStems} {t u v : Aliases}

theorem Writes.alone (writes : Writes stems t u source text ns vs) :
    WritesAll stems t [source] [text] u :=
  .cons writes .nil

theorem WritesAll.append (first : WritesAll stems t sources texts u)
    (second : WritesAll stems u others more v) :
    WritesAll stems t (sources ++ others) (texts ++ more) v := by
  induction first with
  | nil => exact second
  | cons first _ ih => exact .cons first (ih second)

theorem WritesAll.grows (run : WritesAll stems t sources texts u) : t.Grows u := by
  induction run with
  | nil => exact .refl
  | cons first _ ih => exact first.grows.trans ih

/-- The aliases of all texts together are the ones that have been allocated. -/
theorem WritesAll.allocates (run : WritesAll stems t sources texts u) :
    ∃ ns vs, t.Allocates u ns vs ∧ texts.flatMap nameAliases = ns.map stems.nameAlias ∧
      texts.flatMap valueAliases = vs.map stems.valueAlias := by
  induction run with
  | nil => exact ⟨[], [], .refl _, rfl, rfl⟩
  | cons first _ ih =>
    obtain ⟨ms, ws, allocates, names, values⟩ := ih
    refine ⟨_, _, first.allocates.trans allocates, ?_, ?_⟩
    · rw [List.flatMap_cons, nameAliases, first.mentions.names, names, List.map_append]
    · rw [List.flatMap_cons, valueAliases, first.mentions.values, values, List.map_append]

theorem Writes.read (writes : Writes stems t u source text ns vs) (later : u.Grows final) :
    (nameAliases text).mapM (fun key => Record.find? key (final.tables stems).names) =
        some source.names ∧
      (valueAliases text).mapM (fun key => Record.find? key (final.tables stems).values) =
        some source.operands := by
  obtain ⟨names, values⟩ := writes.found final later
  constructor
  · rw [nameAliases, writes.mentions.names, List.mapM_map]
    simpa only [Function.comp_def, find?_nameAlias] using names
  · rw [valueAliases, writes.mentions.values, List.mapM_map]
    simpa only [Function.comp_def, find?_valueAlias] using values

/-- Under the tables at the end, every text has the names and values of its source. -/
theorem WritesAll.read (run : WritesAll stems t sources texts u) (later : u.Grows final) :
    List.Forall₂ (fun text source =>
      (nameAliases text).mapM (fun key => Record.find? key (final.tables stems).names) =
          some source.names ∧
        (valueAliases text).mapM (fun key => Record.find? key (final.tables stems).values) =
          some source.operands) texts sources := by
  induction run with
  | nil => exact .nil
  | cons first rest ih => exact .cons (first.read (rest.grows.trans later)) (ih later)

end

end Aliases

end ItemSchema
