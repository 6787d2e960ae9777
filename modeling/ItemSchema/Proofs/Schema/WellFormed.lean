import ItemSchema.Proofs.Except
import ItemSchema.Schema.Reader

/-! Well-formed schemas, and that the checks of the structure admit exactly these. -/
namespace ItemSchema

/-- Attributes that may stand below the top level: none is a key, every list has the attribute of
its items, and the fields of a map have different names, none of them empty. -/
inductive Attribute.Nested : Attribute → Prop where
  | scalar (of : ScalarType) : Nested (.scalar of)
  | set (of : SetType) : Nested (.set of)
  | list (item : Nested a) : Nested (.list (some a))
  | map (distinct : (fields.map Prod.fst).Nodup) (named : ∀ entry ∈ fields, entry.1 ≠ "")
      (below : ∀ entry ∈ fields, Nested entry.2) : Nested (.map fields)

/-- Attributes of one level, with or without keys among them. -/
structure Schema.Level (topLevel : Bool) (fields : Schema) : Prop where
  distinct : (fields.map Prod.fst).Nodup
  named : ∀ entry ∈ fields, entry.1 ≠ ""
  below : ∀ entry ∈ fields, (topLevel = true ∧ entry.2.isKey = true) ∨ entry.2.Nested

theorem Attribute.Nested.not_isKey (nested : Nested a) : a.isKey = false := by
  cases nested <;> rfl

namespace Schema

theorem level_nested (fields : Schema) :
    Level false fields ↔ (Attribute.map fields).Nested := by
  constructor
  · rintro ⟨distinct, named, below⟩
    exact .map distinct named fun entry member => by simpa using below entry member
  · intro nested
    cases nested with
    | map distinct named below =>
      exact ⟨distinct, named, fun entry member => .inr (below entry member)⟩

theorem level_nil : Level topLevel [] := by
  constructor <;> simp

theorem level_cons : Level topLevel ((name, a) :: rest) ↔
    name ∉ rest.map Prod.fst ∧ name ≠ "" ∧
      ((topLevel = true ∧ a.isKey = true) ∨ a.Nested) ∧ Level topLevel rest := by
  constructor
  · rintro ⟨distinct, named, below⟩
    rw [List.map_cons, List.nodup_cons] at distinct
    exact ⟨distinct.1, named _ List.mem_cons_self, below _ List.mem_cons_self, distinct.2,
      fun entry member => named entry (List.mem_cons_of_mem _ member),
      fun entry member => below entry (List.mem_cons_of_mem _ member)⟩
  · rintro ⟨fresh, nonempty, here, ⟨distinct, named, below⟩⟩
    refine ⟨?_, ?_, ?_⟩
    · rw [List.map_cons, List.nodup_cons]
      exact ⟨fresh, distinct⟩
    · exact List.forall_mem_cons.mpr ⟨nonempty, named⟩
    · exact List.forall_mem_cons.mpr ⟨here, below⟩

mutual

theorem checkAttribute_ok_iff (p : Path) (topLevel : Bool) (a : Attribute) :
    checkAttribute p topLevel a = .ok () ↔
      (topLevel = true ∧ a.isKey = true) ∨ a.Nested := by
  cases a with
  | partitionKey of | sortKey of =>
    have notNested : ∀ {a : Attribute}, a.isKey = true → ¬a.Nested := by
      intro a key nested
      rw [nested.not_isKey] at key
      contradiction
    cases topLevel <;> simp [checkAttribute, notNested, Attribute.isKey, Attribute.kind,
      AttributeKind.isKey, AttributeKind.isPartitionKey, AttributeKind.isSortKey]
  | scalar of => simp [checkAttribute, Attribute.Nested.scalar]
  | set of => simp [checkAttribute, Attribute.Nested.set]
  | list items =>
    cases items with
    | none =>
      simp only [checkAttribute, reduceCtorEq, false_iff]
      rintro (⟨_, key⟩ | nested)
      · contradiction
      · cases nested
    | some item =>
      rw [checkAttribute, checkAttribute_ok_iff]
      constructor
      · rintro (⟨key, _⟩ | nested)
        · contradiction
        · exact .inr (.list nested)
      · rintro (⟨_, key⟩ | nested)
        · contradiction
        · cases nested with
          | list nested => exact .inr nested
  | map fields =>
    rw [checkAttribute, checkFields_ok_iff, level_nested]
    constructor
    · exact fun checked => .inr checked.1
    · rintro (⟨_, key⟩ | nested)
      · contradiction
      · exact ⟨nested, by simp⟩

theorem checkFields_ok_iff (p : Path) (topLevel : Bool) (seen : List String)
    (fields : List (String × Attribute)) :
    checkFields p topLevel seen fields = .ok () ↔
      Level topLevel fields ∧ ∀ name ∈ seen, name ∉ fields.map Prod.fst := by
  cases fields with
  | nil => simp [checkFields, level_nil]
  | cons entry rest =>
    obtain ⟨name, a⟩ := entry
    rw [checkFields, level_cons]
    have seenCons : (∀ other ∈ seen, other ∉ (name :: rest.map Prod.fst)) ↔
        name ∉ seen ∧ ∀ other ∈ seen, other ∉ rest.map Prod.fst := by
      simp only [List.mem_cons, not_or]
      constructor
      · intro fresh
        exact ⟨fun member => (fresh name member).1 rfl, fun other member => (fresh other member).2⟩
      · rintro ⟨fresh, later⟩ other member
        exact ⟨fun same => fresh (same ▸ member), later other member⟩
    have restCons : (∀ other ∈ name :: seen, other ∉ rest.map Prod.fst) ↔
        name ∉ rest.map Prod.fst ∧ ∀ other ∈ seen, other ∉ rest.map Prod.fst :=
      List.forall_mem_cons
    rw [List.map_cons, seenCons]
    by_cases repeated : name ∈ seen
    · simp [repeated, bind, Except.bind]
    · by_cases nameless : name = ""
      · subst nameless
        simp [repeated, bind, Except.bind]
      · simp only [List.contains_eq_mem, repeated, decide_false, Bool.false_eq_true, if_false,
          String.isEmpty_iff, nameless, bind_eq_ok, checkAttribute_ok_iff, checkFields_ok_iff,
          restCons]
        constructor
        · rintro ⟨_, here, level, fresh, later⟩
          exact ⟨⟨fresh, nameless, here, level⟩, id, later⟩
        · rintro ⟨⟨fresh, _, here, level⟩, _, later⟩
          exact ⟨(), here, level, fresh, later⟩

end

/-- A level at the top with at most one key of each kind. -/
structure WellFormed (schema : Schema) : Prop extends Level true schema where
  partitionKeys : schema.partitionKeyCount ≤ 1
  sortKeys : schema.sortKeyCount ≤ 1

theorem checkStructure_ok_iff (schema : Schema) :
    schema.checkStructure = .ok () ↔ schema.WellFormed := by
  have counts : ∀ {p s : Nat}, (decide (1 < p) || decide (1 < s)) = true ↔ 1 < p ∨ 1 < s := by
    simp
  simp only [checkStructure, bind_eq_ok, counts]
  constructor
  · rintro ⟨⟨⟩, fields, counted⟩
    split at counted
    · contradiction
    · obtain ⟨level, _⟩ := (checkFields_ok_iff ..).mp fields
      exact ⟨level, by omega, by omega⟩
  · rintro ⟨level, partitionKeys, sortKeys⟩
    refine ⟨(), (checkFields_ok_iff ..).mpr ⟨level, by simp⟩, ?_⟩
    rw [if_neg (by omega)]
    rfl

/-- The schemas that come out of a checked text or out of checked fields. -/
def Accepted (schema : Schema) : Prop :=
  (∃ text, ofText text = .ok schema) ∨ ∃ fields, ofFields fields = .ok schema

theorem ofText_wellFormed (read : ofText text = .ok schema) : schema.WellFormed := by
  simp only [ofText, bind_eq_ok, except_pure, Except.ok.injEq] at read
  obtain ⟨parsed, _, _, checked, _, _, rfl⟩ := read
  exact (checkStructure_ok_iff parsed).mp checked

theorem ofFields_wellFormed (built : ofFields fields = .ok schema) : schema.WellFormed := by
  simp only [ofFields, bind_eq_ok, except_pure, Except.ok.injEq] at built
  obtain ⟨_, checked, rfl⟩ := built
  exact (checkStructure_ok_iff fields).mp checked

theorem Accepted.wellFormed (accepted : Accepted schema) : schema.WellFormed := by
  rcases accepted with ⟨text, read⟩ | ⟨fields, built⟩
  · exact ofText_wellFormed read
  · exact ofFields_wellFormed built

end Schema

end ItemSchema
