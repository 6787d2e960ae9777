import ItemSchema.Proofs.Schema.Descent
import ItemSchema.Proofs.Table.Entity

/-! Schemas as trees. The checks go down the attributes with the path so far, and only the length of
that path tells the top level from the rest; what they admit is said here of all places at once. -/
namespace ItemSchema

/-- What is right about every place of a schema, with the number of keys at its top. The places are
those of all fields, also of fields whose name an earlier one has. -/
structure Schema.IsTree (schema : Schema) : Prop where
  distinct : ∀ p fields, (Attribute.map schema).Leads p (.map fields) →
    (fields.map Prod.fst).Nodup
  named : ∀ p fields, (Attribute.map schema).Leads p (.map fields) →
    ∀ entry ∈ fields, entry.1 ≠ ""
  keys : ∀ p a, (Attribute.map schema).Leads p a → a.isKey = true → p.length = 1
  items : ∀ p, ¬(Attribute.map schema).Leads p (.list none)
  partitionKeys : schema.partitionKeyCount ≤ 1
  sortKeys : schema.sortKeyCount ≤ 1

namespace Attribute

/-- What an attribute must be by itself to stand below the top level. -/
def FitsBelow : Attribute → Prop
  | .partitionKey _ | .sortKey _ | .list none => False
  | .map fields => (fields.map Prod.fst).Nodup ∧ ∀ entry ∈ fields, entry.1 ≠ ""
  | _ => True

theorem Nested.fitsBelow {a : Attribute} (nested : a.Nested) : a.FitsBelow := by
  cases nested with
  | map distinct named below => exact ⟨distinct, named⟩
  | _ => trivial

/-- An attribute may stand below the top level if each place of it may. -/
theorem nested_iff {a : Attribute} : a.Nested ↔ ∀ p b, a.Leads p b → b.FitsBelow := by
  constructor
  · intro nested p b leads
    exact (nested.leads leads).fitsBelow
  · intro fits
    induction a using below_induction with
    | scalar a of typed =>
      have here := fits [] a (.here a)
      cases a with
      | scalar of => exact .scalar of
      | partitionKey | sortKey => exact here.elim
      | _ => contradiction
    | set of => exact .set of
    | bare => exact (fits [] _ (.here _)).elim
    | list item ih => exact .list (ih fun p b leads => fits _ b (.index 0 leads))
    | map fields ih =>
      obtain ⟨distinct, named⟩ := fits [] _ (.here _)
      exact .map distinct named fun entry member =>
        ih entry member fun p b leads => fits _ b (.field member leads)

end Attribute

namespace Schema

theorem WellFormed.isTree {schema : Schema} (wellFormed : schema.WellFormed) : schema.IsTree where
  distinct _ _ leads := (Attribute.Sound.leads (.top wellFormed.toLevel) leads).level.distinct
  named _ _ leads := (Attribute.Sound.leads (.top wellFormed.toLevel) leads).level.named
  keys p a leads key := by
    cases leads with
    | here => contradiction
    | field member further =>
      rcases wellFormed.below _ member with ⟨_, first⟩ | nested
      · rw [(further.of_key first).1]
        rfl
      · rw [(nested.leads further).not_isKey] at key
        contradiction
  items _ leads := (Attribute.Sound.leads (.top wellFormed.toLevel) leads).not_bare
  partitionKeys := wellFormed.partitionKeys
  sortKeys := wellFormed.sortKeys

/-- What is no key itself at the top level may stand below it. -/
theorem IsTree.fitsBelow {schema : Schema} (tree : schema.IsTree)
    (leads : (Attribute.map schema).Leads p a) (notKey : a.isKey = false) : a.FitsBelow := by
  cases a with
  | partitionKey | sortKey => contradiction
  | scalar | set => trivial
  | list item =>
    cases item with
    | none => exact tree.items p leads
    | some item => trivial
  | map fields => exact ⟨tree.distinct p fields leads, tree.named p fields leads⟩

theorem IsTree.wellFormed {schema : Schema} (tree : schema.IsTree) : schema.WellFormed where
  distinct := tree.distinct [] schema (.here _)
  named := tree.named [] schema (.here _)
  below entry member := by
    obtain ⟨name, a⟩ := entry
    cases top : a.isKey with
    | true => exact .inl ⟨rfl, rfl⟩
    | false =>
      refine .inr (Attribute.nested_iff.mpr fun p b leads => ?_)
      have place := Attribute.Leads.field member leads
      refine tree.fitsBelow place (Bool.eq_false_iff.mpr fun key => ?_)
      -- A key stands at the top level, where there is only `a`, and that is none.
      have atTop := tree.keys _ b place key
      cases leads with
      | here => simp [top] at key
      | field | index => simp at atTop
  partitionKeys := tree.partitionKeys
  sortKeys := tree.sortKeys

theorem isTree_iff (schema : Schema) : schema.IsTree ↔ schema.checkStructure = .ok () := by
  rw [checkStructure_ok_iff]
  exact ⟨IsTree.wellFormed, WellFormed.isTree⟩

/-- Building from fields gives these fields, if names are unique and not empty in every map of them,
keys stand at the top only and at most one of each kind, and every list has the attribute of its
items; otherwise it fails. Reading a text gives what is written in it under the same conditions and
with one partition key. -/
theorem accepts_trees :
    (∀ fields schema, ofFields fields = .ok schema ↔ schema = fields ∧ IsTree fields) ∧
      ∀ text schema, ofText text = .ok schema ↔
        (Json.parse text).read ofJson = .ok schema ∧ schema.IsTree ∧
          schema.partitionKeyCount = 1 := by
  constructor
  · intro fields schema
    rw [isTree_iff]
    simp only [ofFields, bind_eq_ok, except_pure, Except.ok.injEq]
    constructor
    · rintro ⟨_, checked, rfl⟩
      exact ⟨rfl, checked⟩
    · rintro ⟨rfl, checked⟩
      exact ⟨(), checked, rfl⟩
  · intro text schema
    rw [isTree_iff, ← checkEntity_ok_iff]
    simp only [ofText, bind_eq_ok, except_pure, Except.ok.injEq, mapError_eq_ok]
    constructor
    · rintro ⟨_, read, _, checked, _, one, rfl⟩
      exact ⟨read, checked, one⟩
    · rintro ⟨read, checked, one⟩
      exact ⟨schema, read, (), checked, (), one, rfl⟩

end Schema

end ItemSchema
