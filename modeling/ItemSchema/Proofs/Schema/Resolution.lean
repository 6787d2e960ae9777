import ItemSchema.Proofs.Except
import ItemSchema.Schema.View

/-! Paths that lead to an attribute: one segment at a time, and through the view of everything. -/
namespace ItemSchema

/-- The ways one segment down. -/
inductive Attribute.Below : Attribute → Segment String → Attribute → Prop where
  | field (found : Schema.get? fields name = some a) : Below (.map fields) (.field name) a
  | index (item : Attribute) (n : Nat) : Below (.list (some item)) (.index n) item

theorem Attribute.child_ok_iff {a b : Attribute} {segment : Segment String} :
    a.child whole done segment = .ok b ↔ a.Below segment b := by
  constructor
  · intro followed
    unfold child at followed
    split at followed
    · split at followed
      · rename_i found
        cases followed
        exact .field found
      · contradiction
    · cases followed
      exact .index b _
    · contradiction
    · contradiction
  · intro below
    cases below with
    | field found => simp [child, found]
    | index item n => rfl

theorem Attribute.follow_cons_ok_iff {a b : Attribute} {segment : Segment String} {p : Path} :
    a.follow whole done (segment :: p) = .ok b ↔
      ∃ next, a.Below segment next ∧ next.follow whole (done ++ [segment]) p = .ok b := by
  rw [follow, bind_eq_ok]
  simp only [child_ok_iff]

theorem Attribute.follow_append_ok_iff {a c : Attribute} {p q : Path} :
    a.follow whole done (p ++ q) = .ok c ↔
      ∃ b, a.follow whole done p = .ok b ∧ b.follow whole (done ++ p) q = .ok c := by
  induction p generalizing a done with
  | nil => simp [follow]
  | cons segment rest ih =>
    simp only [List.cons_append, follow_cons_ok_iff, ih, List.append_assoc, List.nil_append]
    constructor
    · rintro ⟨next, below, b, first, further⟩
      exact ⟨b, ⟨next, below, first⟩, further⟩
    · rintro ⟨b, ⟨next, below, first⟩, further⟩
      exact ⟨next, below, b, first, further⟩

/-- The path of which a path is a part only stands in errors. -/
theorem Attribute.follow_anywhere {a b : Attribute} {p : Path}
    (followed : a.follow whole done p = .ok b) (other before : Path) :
    a.follow other before p = .ok b := by
  induction p generalizing a done before with
  | nil => exact followed
  | cons segment rest ih =>
    obtain ⟨next, below, further⟩ := follow_cons_ok_iff.mp followed
    exact follow_cons_ok_iff.mpr ⟨next, below, ih further _⟩

/-- A path that leads somewhere starts with a field. -/
theorem Schema.resolve_ok_iff {schema : Schema} {p : Path} : schema.resolve p = .ok a ↔
    ∃ name rest b, p = .field name :: rest ∧ schema.get? name = some b ∧
      b.follow p [.field name] rest = .ok a := by
  cases p with
  | nil => simp [resolve]
  | cons segment rest =>
    rw [resolve, Attribute.follow_cons_ok_iff]
    · constructor
      · rintro ⟨b, below, followed⟩
        cases below with
        | field found => exact ⟨_, rest, b, rfl, found, followed⟩
      · rintro ⟨name, rest, b, same, found, followed⟩
        cases same
        exact ⟨b, .field found, followed⟩
    · simp

theorem Schema.follow_of_resolve_append {schema : Schema} {p q : Path}
    (resolved : schema.resolve p = .ok a) (further : schema.resolve (p ++ q) = .ok b) :
    a.follow (p ++ q) p q = .ok b := by
  obtain ⟨name, rest, c, rfl, found, first⟩ := resolve_ok_iff.mp resolved
  obtain ⟨_, _, d, same, again, followed⟩ := resolve_ok_iff.mp further
  cases same
  cases found.symm.trans again
  obtain ⟨e, along, behind⟩ := Attribute.follow_append_ok_iff.mp followed
  cases first.symm.trans (Attribute.follow_anywhere along _ _)
  exact behind

theorem SchemaView.resolve_full {schema : Schema} {p : Path} (resolved : schema.resolve p = .ok a) :
    SchemaView.resolve ⟨schema, .full⟩ p = .ok a := by
  obtain ⟨name, rest, b, rfl, found, _⟩ := Schema.resolve_ok_iff.mp resolved
  simp [SchemaView.resolve, Path.firstField?, contains, found, resolved]

end ItemSchema
