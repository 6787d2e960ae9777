import ItemSchema.Proofs.Expression.Lookup
import ItemSchema.Proofs.Expression.Reading
import Mathlib

/-! What a compiled condition says. Its text is unambiguous: read by the grammar of expressions, and
with the tables that a request has in the end, it gives back the condition. -/
namespace ItemSchema

/-- The condition of a text that is read by the grammar, each alias taken for what it stands for. -/
def AliasTables.condition? (tables : AliasTables) (text : String) : Option Condition := do
  let written ← Expression.readCondition text
  written.resolve (fun key => Record.find? key tables.names)
    fun key => Record.find? key tables.values

namespace Aliases

theorem tables_condition? (t : Aliases) (stems : AliasStems) (aliased : AliasedCondition) :
    (aliased.map stems.nameAlias stems.valueAlias).resolve
      (fun key => Record.find? key (t.tables stems).names)
      (fun key => Record.find? key (t.tables stems).values) = t.condition? aliased := by
  simp only [ConditionTree.resolve_map, find?_nameAlias, find?_valueAlias]
  rfl

theorem condition?_conditionText {stems : AliasStems} (admissible : stems.Admissible)
    {aliased : AliasedCondition} (rooted : aliased.Rooted) (counted : aliased.Counted)
    (t : Aliases) :
    (t.tables stems).condition? (stems.conditionText aliased) =
      (t.condition? aliased).map ConditionTree.grouped := by
  rw [AliasTables.condition?, Expression.readCondition_conditionText admissible rooted counted,
    Option.bind_eq_bind, Option.bind_some, ConditionTree.resolve_grouped, tables_condition?]

theorem condition?_compileCondition {stems : AliasStems} (admissible : stems.Admissible)
    {t : Aliases} {c : Condition} (rooted : c.Rooted)
    (compiled : t.compileCondition stems c = (u, .ok text)) (later : u.Grows final) :
    (final.tables stems).condition? text = some c.grouped := by
  obtain ⟨aliased, rfl, _, compiles⟩ := compileCondition_compiles compiled
  rw [condition?_conditionText admissible (compiles.rooted rooted) compiles.counted,
    compiles.found final later, Option.map_some]

/-- A text says what it was compiled from, whatever is allocated after it, and so no other condition
has the same text with the same tables. Only a group of one condition may be of either kind. -/
theorem compileCondition_faithful {stems : AliasStems} (admissible : stems.Admissible)
    {t u : Aliases} {c : Condition} (rooted : c.Rooted)
    (compiled : t.compileCondition stems c = (u, .ok text)) :
    (∀ final, u.Grows final → (final.tables stems).condition? text = some c.grouped) ∧
      ∀ (stems' : AliasStems) (t' u' : Aliases) (c' : Condition), stems'.Admissible → c'.Rooted →
        t'.compileCondition stems' c' = (u', .ok text) → u'.tables stems' = u.tables stems →
          c'.grouped = c.grouped := by
  constructor
  · intro final later
    exact condition?_compileCondition admissible rooted compiled later
  · intro stems' t' u' c' admissible' rooted' compiled' same
    have here := condition?_compileCondition admissible rooted compiled .refl
    have there := condition?_compileCondition admissible' rooted' compiled' .refl
    rw [same, here] at there
    exact (Option.some.inj there).symm

end Aliases

namespace Shop

/-- A negation, a group of one condition, and a name that is used twice. -/
def offer : Condition :=
  .logical .or [
    .logical .not [
      .comparison [.field "prices", .index 2, .field "net"] .between [.n "10", .n "20"]],
    .logical .or [.comparison [.field "tags"] (.size .ge) [.n "1"]],
    .comparison [.field "net"] .isIn [.n "5", .n "7"]]

def offerText : String :=
  "((NOT #f2[2].#f3 BETWEEN :v1 AND :v2) OR (size(#f1) >= :v3) OR #f3 IN (:v4, :v5))"

/-- The aliases of another expression of the same request. -/
def taken : Aliases :=
  ⟨["id", "tags"], [.s "x"]⟩

theorem offer_faithful :
    ∃ u, taken.compileCondition .standard offer = (u, .ok offerText) ∧
      u.Grows (u.name "stock").1 ∧
      ((u.name "stock").1.tables .standard).condition? offerText = some offer.grouped := by
  have admissible : AliasStems.standard.Admissible := ⟨by decide, by decide⟩
  have rooted : offer.Rooted := by
    refine .logical .or (List.forall_mem_cons.mpr ⟨?_, List.forall_mem_cons.mpr ⟨?_, ?_⟩⟩)
    · exact .logical .not (List.forall_mem_singleton.mpr (.comparison ..))
    · exact .logical .or (List.forall_mem_singleton.mpr (.comparison ..))
    · exact List.forall_mem_singleton.mpr (.comparison ..)
  obtain ⟨u, compiled⟩ : ∃ u, taken.compileCondition .standard offer = (u, .ok offerText) :=
    ⟨_, by rfl⟩
  have later : u.Grows (u.name "stock").1 := Aliases.Grows.refl.name "stock"
  exact ⟨u, compiled, later,
    (Aliases.compileCondition_faithful admissible rooted compiled).1 _ later⟩

end Shop

end ItemSchema
