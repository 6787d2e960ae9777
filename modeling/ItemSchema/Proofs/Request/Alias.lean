import ItemSchema.Proofs.Request.Source
import Mathlib

/-! A request that was built has the aliases of its expressions and no others, so the store has no
reason to refuse it for an alias that is missing or not used. -/
namespace ItemSchema

open Expression

/-- The aliases of a request are right for what its expressions come from. -/
structure Request.WellAliased (r : Request) (sources : List ExpressionSource) : Prop where
  names : ∀ key, key ∈ r.expressions.flatMap nameAliases ↔ key ∈ r.names.map Prod.fst
  values : ∀ key, key ∈ r.expressions.flatMap valueAliases ↔ key ∈ r.values.map Prod.fst
  once : (r.expressions.flatMap valueAliases).Nodup
  nameKeys : (r.names.map Prod.fst).Nodup
  valueKeys : (r.values.map Prod.fst).Nodup
  distinct : (r.names.map Prod.snd).Nodup
  /-- In every expression each alias stands for what is at its place in the source. -/
  read : List.Forall₂ (fun text source =>
    (nameAliases text).mapM (fun key => Record.find? key r.names) = some source.names ∧
      (valueAliases text).mapM (fun key => Record.find? key r.values) = some source.operands)
    r.expressions sources

theorem Request.WrittenFrom.wellAliased {r : Request} (written : r.WrittenFrom stems sources t) :
    r.WellAliased sources := by
  obtain ⟨ns, vs, allocates, names, values⟩ := written.run.allocates
  have vsRange : vs.Perm (List.range t.values.length) := by
    simpa [Aliases.empty] using allocates.values.symm
  constructor
  case names =>
    intro key
    rw [names, written.names, Aliases.tables,
      Record.mem_keys_mapIdx AliasStems.nameAlias_injective, List.mem_map]
    simp [allocates.names, Aliases.empty]
  case values =>
    intro key
    rw [values, written.values, Aliases.tables,
      Record.mem_keys_mapIdx AliasStems.valueAlias_injective, List.mem_map]
    simp [vsRange.mem_iff]
  case once =>
    rw [values]
    exact (vsRange.nodup_iff.mpr List.nodup_range).map fun _ _ => AliasStems.valueAlias_injective
  case nameKeys =>
    rw [written.names]
    exact (Record.ofList_sorted _).distinct
  case valueKeys =>
    rw [written.values]
    exact (Record.ofList_sorted _).distinct
  case distinct =>
    rw [written.names]
    exact Record.values_mapIdx_nodup AliasStems.nameAlias_injective
      (written.run.grows.names_nodup List.nodup_nil)
  case read =>
    rw [written.names, written.values]
    exact written.run.read .refl

theorem Table.request_wellAliased (table : Table) (calls : RequestCalls)
    (built : table.request calls = .ok r) :
    ∃ sources, table.sources calls = .ok sources ∧ r.WellAliased sources := by
  obtain ⟨sources, t, folded, written⟩ := request_written built
  exact ⟨sources, folded, written.wellAliased⟩

namespace Shop

def schema : Schema :=
  [("id", .partitionKey .string), ("shelf", .scalar .number), ("state", .scalar .string),
    ("tags", .set .string)]

def table : Table :=
  ⟨.ofName "shop", schema, rfl, rfl⟩

/-- The state is used in the update and in its condition. -/
def sale : RequestCalls :=
  .update [
    .key (.map [("id", .string "x")]),
    .delete "tags" (.set [.string "new"]),
    .set "state" (.string "sold"),
    .remove "shelf",
    .write (.condition (.comparison "state" (.compare .ne) (.string "sold")))]

theorem sale_wellAliased :
    ∃ r sources, table.request sale = .ok r ∧
      r.expressions = ["SET #f1 = :v1 REMOVE #f2 DELETE #f0 :v0", "#f1 <> :v2"] ∧
      table.sources sale = .ok sources ∧ r.WellAliased sources := by
  obtain ⟨r, built, texts⟩ : ∃ r, table.request sale = .ok r ∧
      r.expressions = ["SET #f1 = :v1 REMOVE #f2 DELETE #f0 :v0", "#f1 <> :v2"] :=
    ⟨_, rfl, rfl⟩
  obtain ⟨sources, folded, wellAliased⟩ := Table.request_wellAliased table sale built
  exact ⟨r, sources, built, texts, folded, wellAliased⟩

end Shop

end ItemSchema
