import ItemSchema.Proofs.Record
import ItemSchema.Proofs.Schema.Resolution
import ItemSchema.Proofs.Schema.WellFormed

/-! What views show. The views of keys and of everything else divide the paths of a schema between
them, and below the top level no path leads to a key. -/
namespace ItemSchema

theorem Attribute.Below.not_isKey {a b : Attribute} {segment : Segment String}
    (below : a.Below segment b) : a.isKey = false := by
  cases below <;> rfl

theorem Attribute.Below.nested {a b : Attribute} {segment : Segment String} (nested : a.Nested)
    (below : a.Below segment b) : b.Nested := by
  cases below with
  | field found =>
    cases nested with
    | map _ _ below => exact below _ (Record.mem_of_find? found)
  | index item n =>
    cases nested with
    | list nested => exact nested

theorem Attribute.follow_nested {a b : Attribute} {p : Path} (nested : a.Nested)
    (followed : a.follow whole done p = .ok b) : b.Nested := by
  induction p generalizing a done with
  | nil =>
    cases followed
    exact nested
  | cons segment rest ih =>
    obtain ⟨next, below, further⟩ := follow_cons_ok_iff.mp followed
    exact ih (below.nested nested) further

/-- A key has nothing below it. -/
theorem Attribute.follow_key {a b : Attribute} {p : Path} (key : a.isKey = true)
    (followed : a.follow whole done p = .ok b) : p = [] ∧ b = a := by
  cases p with
  | nil =>
    cases followed
    exact ⟨rfl, rfl⟩
  | cons segment rest =>
    obtain ⟨next, below, _⟩ := follow_cons_ok_iff.mp followed
    rw [below.not_isKey] at key
    contradiction

theorem Schema.isPrimaryKey_of_get? {schema : Schema} (found : schema.get? name = some a) :
    schema.isPrimaryKey name = a.isKey := by
  rw [isPrimaryKey, found, Option.any_some]

namespace SchemaView

variable {schema : Schema} {p : Path}

theorem contains_keysOnly (found : schema.get? name = some a) :
    contains ⟨schema, .keysOnly⟩ name = a.isKey :=
  Schema.isPrimaryKey_of_get? found

theorem contains_nonKeys (found : schema.get? name = some a) :
    contains ⟨schema, .nonKeys⟩ name = !a.isKey := by
  rw [contains, found, Option.any_some]

/-- Each attribute of the schema is shown by one of the two views. -/
theorem contains_divided (found : schema.get? name = some a) :
    contains ⟨schema, .nonKeys⟩ name = !contains ⟨schema, .keysOnly⟩ name := by
  rw [contains_nonKeys found, contains_keysOnly found]

/-- No view shows more than its schema has. -/
theorem get?_of_contains {view : SchemaView} (shown : view.contains name = true) :
    ∃ a, view.schema.get? name = some a := by
  rw [← Option.isSome_iff_exists]
  obtain ⟨schema, scope⟩ := view
  cases found : schema.get? name with
  | none => cases scope <;> simp [contains, Schema.isPrimaryKey, found] at shown
  | some a => rfl

theorem resolve_of_contains {view : SchemaView} (starts : p.firstField? = some name)
    (shown : view.contains name = true) : view.resolve p = view.schema.resolve p := by
  simp [resolve, starts, shown]

theorem resolve_of_hidden {view : SchemaView}
    (hidden : ∀ name, p.firstField? = some name → view.contains name = false) :
    view.resolve p = .error (.pathNotFound p) := by
  rw [resolve]
  cases starts : p.firstField? with
  | none => rfl
  | some name => simp [hidden name starts]

theorem resolve_ok_iff {view : SchemaView} : view.resolve p = .ok a ↔
    ∃ name rest b, p = .field name :: rest ∧ view.contains name = true ∧
      view.schema.get? name = some b ∧ b.follow p [.field name] rest = .ok a := by
  constructor
  · intro resolved
    cases starts : p.firstField? with
    | none => simp [resolve, starts] at resolved
    | some name =>
      cases shown : view.contains name with
      | false => simp [resolve, starts, shown] at resolved
      | true =>
        rw [resolve_of_contains starts shown] at resolved
        obtain ⟨first, rest, b, rfl, found, followed⟩ := Schema.resolve_ok_iff.mp resolved
        cases starts
        exact ⟨name, rest, b, rfl, shown, found, followed⟩
  · rintro ⟨name, rest, b, rfl, shown, found, followed⟩
    rw [resolve_of_contains rfl shown]
    exact Schema.resolve_ok_iff.mpr ⟨name, rest, b, rfl, found, followed⟩

theorem resolve_keysOnly (resolved : resolve ⟨schema, .keysOnly⟩ p = .ok a) :
    ∃ name, p = [.field name] ∧ schema.get? name = some a ∧ a.isKey = true := by
  obtain ⟨name, rest, b, rfl, shown, found, followed⟩ := resolve_ok_iff.mp resolved
  rw [contains_keysOnly found] at shown
  obtain ⟨rfl, rfl⟩ := Attribute.follow_key shown followed
  exact ⟨name, rfl, found, shown⟩

/-- Nothing that is shown beside the keys is a key, however deep it is. -/
theorem resolve_nonKeys (level : schema.Level true)
    (resolved : resolve ⟨schema, .nonKeys⟩ p = .ok a) : a.isKey = false := by
  obtain ⟨name, rest, b, rfl, shown, found, followed⟩ := resolve_ok_iff.mp resolved
  rw [contains_nonKeys found, Bool.not_eq_true'] at shown
  have nested : b.Nested := by
    rcases level.below _ (Record.mem_of_find? found) with ⟨_, key⟩ | nested
    · rw [shown] at key
      contradiction
    · exact nested
  exact (Attribute.follow_nested nested followed).not_isKey

end SchemaView

end ItemSchema
