import ItemSchema.Proofs.Schema.View

/-! Descent through attributes. A path leads to every attribute of its names, not only to the first
one of a name, as decoding goes through all of them; in a schema that was accepted there are no
others. -/
namespace ItemSchema.Attribute

/-- What holds of attributes without others below them, and of lists and maps as soon as it holds of
what is below them. -/
theorem below_induction {P : Attribute → Prop}
    (scalar : ∀ a of, a.kind.scalarType? = some of → P a) (set : ∀ of, P (.set of))
    (bare : P (.list none)) (list : ∀ item, P item → P (.list (some item)))
    (map : ∀ fields, (∀ field ∈ fields, P field.2) → P (.map fields)) (a : Attribute) : P a :=
  @Attribute.rec P (fun items => P (.list items)) (fun fields => ∀ field ∈ fields, P field.2)
    (fun field => P field.2)
    (fun of => scalar (.partitionKey of) of.scalarType rfl)
    (fun of => scalar (.sortKey of) of.scalarType rfl)
    (fun of => scalar (.scalar of) of rfl) set (fun _ items => items) map
    bare list (by simp) (fun _ _ first rest => List.forall_mem_cons.mpr ⟨first, rest⟩)
    (fun _ _ below => below) a

/-- The ways down from an attribute. -/
inductive Leads : Attribute → Path → Attribute → Prop where
  | here (a : Attribute) : Leads a [] a
  | field (member : (name, a) ∈ fields) (further : Leads a p b) :
    Leads (.map fields) (.field name :: p) b
  | index (n : Nat) (further : Leads item p b) : Leads (.list (some item)) (.index n :: p) b

/-- A path that is followed is one of the ways down. -/
theorem leads_of_follow {a b : Attribute} {p : Path} (followed : a.follow whole done p = .ok b) :
    a.Leads p b := by
  induction p generalizing a done with
  | nil =>
    cases followed
    exact .here _
  | cons segment rest ih =>
    obtain ⟨next, below, further⟩ := follow_cons_ok_iff.mp followed
    cases below with
    | field found => exact .field (Record.mem_of_find? found) (ih further)
    | index item n => exact .index n (ih further)

theorem Leads.trans {a b c : Attribute} {p q : Path} (first : a.Leads p b) (further : b.Leads q c) :
    a.Leads (p ++ q) c := by
  induction first with
  | here => exact further
  | field member _ ih => exact .field member (ih further)
  | index n _ ih => exact .index n (ih further)

/-- There is no way down from a key. -/
theorem Leads.of_key {a b : Attribute} {p : Path} (key : a.isKey = true)
    (leads : a.Leads p b) : p = [] ∧ b = a := by
  cases leads with
  | here => exact ⟨rfl, rfl⟩
  | field | index => contradiction

theorem Nested.leads {a b : Attribute} (nested : a.Nested) (leads : a.Leads p b) : b.Nested := by
  induction leads with
  | here => exact nested
  | field member further ih =>
    cases nested with
    | map distinct named below => exact ih (below _ member)
  | index n further ih =>
    cases nested with
    | list item => exact ih item

/-- The attributes of an accepted schema, and the map of all of them. -/
inductive Sound : Attribute → Prop where
  | key (key : a.isKey = true) : Sound a
  | nested (nested : a.Nested) : Sound a
  | top (level : Schema.Level true fields) : Sound (.map fields)

namespace Sound

theorem not_bare : ¬(Attribute.list none).Sound := by
  intro sound
  cases sound with
  | key key => contradiction
  | nested nested => cases nested

theorem level (sound : (Attribute.map fields).Sound) : Schema.Level true fields := by
  cases sound with
  | key key => contradiction
  | nested nested =>
    cases nested with
    | map distinct named below =>
      exact ⟨distinct, named, fun entry member => .inr (below entry member)⟩
  | top level => exact level

theorem field (sound : (Attribute.map fields).Sound) (member : entry ∈ fields) :
    entry.2.Sound := by
  rcases sound.level.below entry member with ⟨_, key⟩ | nested
  · exact .key key
  · exact .nested nested

theorem item (sound : (Attribute.list (some a)).Sound) : a.Sound := by
  cases sound with
  | key key => contradiction
  | nested nested =>
    cases nested with
    | list nested => exact .nested nested

theorem below {a b : Attribute} {s : Segment String} (sound : a.Sound) (below : a.Below s b) :
    b.Sound := by
  cases below with
  | field found => exact sound.field (Record.mem_of_find? found)
  | index => exact sound.item

theorem leads {a b : Attribute} {p : Path} (sound : a.Sound) (leads : a.Leads p b) : b.Sound := by
  induction leads with
  | here => exact sound
  | field member further ih => exact ih (sound.field member)
  | index n further ih => exact ih sound.item

theorem follow {a b : Attribute} {p : Path} (sound : a.Sound)
    (followed : a.follow whole done p = .ok b) : b.Sound :=
  sound.leads (leads_of_follow followed)

/-- As names are unique, the ways down are the paths that can be followed. -/
theorem follow_iff {a b : Attribute} {p : Path} (sound : a.Sound) :
    a.follow whole done p = .ok b ↔ a.Leads p b := by
  refine ⟨leads_of_follow, fun leads => ?_⟩
  induction leads generalizing done with
  | here => rfl
  | field member further ih =>
    have found := Record.find?_of_mem sound.level.distinct member
    exact follow_cons_ok_iff.mpr ⟨_, .field found, ih (sound.field member)⟩
  | index n further ih => exact follow_cons_ok_iff.mpr ⟨_, .index _ n, ih sound.item⟩

end Sound

end ItemSchema.Attribute

namespace ItemSchema

theorem Schema.Level.resolve_of_leads {schema : Schema} {b : Attribute} (level : schema.Level true)
    (leads : (Attribute.map schema).Leads p b) (inside : p ≠ []) :
    schema.resolve p = .ok b ∧ (b.isKey = true ∨ b.Nested) := by
  cases leads with
  | here => contradiction
  | field member further =>
    have sound := (Attribute.Sound.top level).field member
    have found := Record.find?_of_mem level.distinct member
    refine ⟨resolve_ok_iff.mpr ⟨_, _, _, rfl, found, sound.follow_iff.mpr further⟩, ?_⟩
    rcases level.below _ member with ⟨_, key⟩ | nested
    · obtain ⟨_, rfl⟩ := further.of_key key
      exact .inl key
    · exact .inr (nested.leads further)

/-- The paths that lead somewhere are the ways down from the top. -/
theorem Schema.Level.resolve_iff_leads {schema : Schema} {b : Attribute}
    (level : schema.Level true) : schema.resolve p = .ok b ↔
      p ≠ [] ∧ (Attribute.map schema).Leads p b := by
  constructor
  · intro resolved
    obtain ⟨name, rest, a, rfl, found, followed⟩ := resolve_ok_iff.mp resolved
    exact ⟨by simp, .field (Record.mem_of_find? found) (Attribute.leads_of_follow followed)⟩
  · rintro ⟨inside, leads⟩
    exact (level.resolve_of_leads leads inside).1

/-- Paths lead to no attribute of some form if there is no way down to any. -/
theorem Schema.Level.never_resolves_iff {schema : Schema} {b : Attribute}
    (level : schema.Level true) (below : b ≠ .map schema) :
    (∀ p, schema.resolve p ≠ .ok b) ↔ ∀ p, ¬(Attribute.map schema).Leads p b := by
  constructor
  · intro never p leads
    cases p with
    | nil =>
      cases leads
      exact below rfl
    | cons segment rest => exact never _ (level.resolve_of_leads leads (List.cons_ne_nil _ _)).1
  · intro never p resolved
    exact never p (level.resolve_iff_leads.mp resolved).2

theorem Schema.Level.resolve_append_iff {schema : Schema} {a b : Attribute} {p q : Path}
    (level : schema.Level true) (resolved : schema.resolve p = .ok a) :
    schema.resolve (p ++ q) = .ok b ↔ a.Leads q b := by
  constructor
  · intro further
    exact Attribute.leads_of_follow (follow_of_resolve_append resolved further)
  · intro further
    obtain ⟨inside, leads⟩ := level.resolve_iff_leads.mp resolved
    exact level.resolve_iff_leads.mpr ⟨by simp [inside], leads.trans further⟩

end ItemSchema
