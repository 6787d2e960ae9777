import ItemSchema.Value

/-! Induction over plain values: what holds of a value as soon as it holds of everything in it holds
of all values. -/
namespace ItemSchema.Value

/-- What a container holds. -/
def contents : Value → List Value
  | .set members => members
  | .list items => items
  | .map fields => fields.map Prod.snd
  | _ => []

theorem mem_contents_map (member : (name, v) ∈ fields) : v ∈ (Value.map fields).contents :=
  List.mem_map.mpr ⟨_, member, rfl⟩

theorem contents_induction {P : Value → Prop} (step : ∀ v, (∀ u ∈ v.contents, P u) → P v)
    (v : Value) : P v := by
  have flat : ∀ v : Value, v.contents = [] → P v := by
    intro v empty
    exact step v (by simp [empty])
  have inMap : ∀ fields, (∀ entry ∈ fields, P entry.2) → P (.map fields) := by
    intro fields each
    apply step
    intro u member
    obtain ⟨entry, inFields, rfl⟩ := List.mem_map.mp member
    exact each entry inFields
  exact @Value.rec P (fun items => ∀ v ∈ items, P v) (fun fields => ∀ entry ∈ fields, P entry.2)
    (fun entry => P entry.2)
    (flat _ rfl) (fun _ => flat _ rfl) (fun _ => flat _ rfl) (fun _ => flat _ rfl)
    (fun _ => flat _ rfl) (fun _ => flat _ rfl) (fun _ => flat _ rfl)
    (fun members => step (.set members)) (fun items => step (.list items)) inMap
    (by simp) (fun _ _ first rest => List.forall_mem_cons.mpr ⟨first, rest⟩)
    (by simp) (fun _ _ first rest => List.forall_mem_cons.mpr ⟨first, rest⟩)
    (fun _ _ value => value) v

end ItemSchema.Value
