import ItemSchema.Codec.Encoding
import ItemSchema.Proofs.Instant.Text
import ItemSchema.Proofs.Value.Json

/-! Values with their dates as clocks show them. Nothing else of a date is written, be it for the
store, for a document or in an error, so the two values encode alike. -/
namespace ItemSchema

namespace Value

mutual

/-- Sets have no dates. -/
def shown : Value → Value
  | .date t => .date t.shown
  | .list items => .list (shownItems items)
  | .map fields => .map (shownFields fields)
  | v => v

def shownItems : List Value → List Value
  | [] => []
  | v :: rest => v.shown :: shownItems rest

def shownFields : List (String × Value) → List (String × Value)
  | [] => []
  | (name, v) :: rest => (name, v.shown) :: shownFields rest

end

theorem shownItems_eq_map (items : List Value) : shownItems items = items.map shown := by
  induction items with
  | nil => rfl
  | cons v rest ih => rw [shownItems, ih, List.map_cons]

theorem shownFields_eq_map (fields : List (String × Value)) :
    shownFields fields = fields.map fun field => (field.1, field.2.shown) := by
  induction fields with
  | nil => rfl
  | cons field rest ih => rw [shownFields, ih, List.map_cons]

theorem document_shown (v : Value) : v.shown.document = v.document := by
  induction v using contents_induction with
  | step v ih =>
    cases v with
    | date t => rw [shown, document, document, Instant.toText_shown]
    | list items =>
      rw [shown, document, document, shownItems_eq_map, documentItems_eq_map,
        documentItems_eq_map, List.map_map]
      exact congrArg _ (List.map_congr_left ih)
    | map fields =>
      rw [shown, document, document, shownFields_eq_map, documentFields_eq_map,
        documentFields_eq_map, List.map_map]
      refine congrArg _ (List.map_congr_left fun field member => ?_)
      exact congrArg _ (ih _ (mem_contents_map member))
    | _ => rfl

/-- A timestamp is on the clock already. -/
theorem exists_of_mem_dates_shown_scalar {v : Value} (date : t ∈ v.shown.dates (.scalar of)) :
    ∃ u ∈ v.dates (.scalar of), t = u.shown := by
  cases of with
  | date =>
    cases v with
    | date u =>
      rw [shown, dates, List.mem_singleton] at date
      exact ⟨u, List.mem_singleton_self u, date⟩
    | string s =>
      have read : Instant.ofText? s = some t := by simpa [shown, dates] using date
      exact ⟨t, date, (Instant.shown_eq_iff.mpr (Instant.ofText?_onClock read)).symm⟩
    | _ => simp [shown, dates] at date
  | _ => simp [dates] at date

theorem exists_of_mem_dates_shown {v : Value} (date : t ∈ v.shown.dates a) :
    ∃ u ∈ v.dates a, t = u.shown := by
  induction v using contents_induction generalizing a with
  | step v ih =>
    cases a with
    | scalar of => exact exists_of_mem_dates_shown_scalar date
    | list item =>
      cases item with
      | none => simp [dates] at date
      | some item =>
        cases v with
        | list items =>
          rw [shown, dates, shownItems_eq_map, mem_itemDates_iff] at date
          obtain ⟨_, mapped, date⟩ := date
          obtain ⟨v, member, rfl⟩ := List.mem_map.mp mapped
          obtain ⟨u, given, same⟩ := ih v member date
          exact ⟨u, mem_itemDates member given, same⟩
        | _ => simp [shown, dates] at date
    | map schema =>
      cases v with
      | map fields =>
        rw [shown, dates, shownFields_eq_map, mem_fieldDates_iff] at date
        obtain ⟨name, _, a, mapped, found, date⟩ := date
        obtain ⟨field, member, same⟩ := List.mem_map.mp mapped
        cases same
        obtain ⟨u, given, same⟩ := ih _ (mem_contents_map member) date
        exact ⟨u, mem_fieldDates member found given, same⟩
      | _ => simp [shown, dates] at date
    | _ => simp [dates] at date

end Value

theorem encodeDate_shown (p : Path) (t : Instant) : encodeDate p t.shown = encodeDate p t := by
  rw [encodeDate, encodeDate, t.isWholeMillis_shown, t.toText_shown, t.toExactText_shown]

theorem encodeScalar_shown (p : Path) (of : ScalarType) (v : Value) :
    encodeScalar p of v.shown = encodeScalar p of v := by
  cases v with
  | date t =>
    cases of with
    | date => exact encodeDate_shown p t
    | _ => rfl
  | list | map => cases of <;> rfl
  | _ => rfl

theorem encodeMembers_shown (p : Path) (of : SetType) (members : List Value) :
    encodeMembers p of (members.map Value.shown) = encodeMembers p of members := by
  have string : stringMember p ∘ Value.shown = stringMember p := by
    funext v
    cases v <;> rfl
  have number : numberMember p ∘ Value.shown = numberMember p := by
    funext v
    cases v <;> rfl
  have binary : binaryMember p ∘ Value.shown = binaryMember p := by
    funext v
    cases v <;> rfl
  cases of <;> simp only [encodeMembers, List.mapM_map, string, number, binary]

theorem encodeSet_shown (p : Path) (of : SetType) (v : Value) :
    encodeSet p of v.shown = encodeSet p of v := by
  cases v with
  | list members =>
    simp only [Value.shown, Value.shownItems_eq_map, encodeSet, List.isEmpty_map,
      encodeMembers_shown]
  | _ => rfl

theorem encodeFlat_shown (p : Path) (a : Attribute) (v : Value) :
    encodeFlat p a v.shown = encodeFlat p a v := by
  cases a with
  | partitionKey of | sortKey of | scalar of => exact encodeScalar_shown p _ v
  | set of => exact encodeSet_shown p of v
  | list item =>
    cases item with
    | none => rfl
    | some item => cases v <;> rfl
  | map schema => cases v <;> rfl

theorem encodeItems_shown {item : Attribute} {items : List Value}
    (each : ∀ v ∈ items, ∀ p, encodeAt p item v.shown = encodeAt p item v) (p : Path) (i : Nat) :
    encodeItems p item i (items.map Value.shown) = encodeItems p item i items := by
  induction items generalizing i with
  | nil => rfl
  | cons v rest ih =>
    obtain ⟨here, later⟩ := List.forall_mem_cons.mp each
    rw [List.map_cons, encodeItems, encodeItems, here, ih later]

theorem encodeFields_shown {fields : List (String × Value)}
    (each : ∀ field ∈ fields, ∀ p a, encodeAt p a field.2.shown = encodeAt p a field.2)
    (p : Path) (schema : Schema) :
    encodeFields p schema (fields.map fun field => (field.1, field.2.shown)) =
      encodeFields p schema fields := by
  induction fields with
  | nil => rfl
  | cons field rest ih =>
    obtain ⟨here, later⟩ := List.forall_mem_cons.mp each
    rw [List.map_cons, encodeFields, encodeFields, ih later]
    simp only [here]

theorem encodeAt_shown (p : Path) (a : Attribute) (v : Value) :
    encodeAt p a v.shown = encodeAt p a v := by
  induction v using Value.contents_induction generalizing p a with
  | step v ih =>
    cases v with
    | list items =>
      cases a with
      | list item =>
        cases item with
        | none => simpa [Value.shown, encodeAt] using encodeFlat_shown p _ (.list items)
        | some item =>
          have same : encodeItems p item 0 (items.map Value.shown) = encodeItems p item 0 items :=
            encodeItems_shown (fun v member p => ih v member p item) p 0
          rw [Value.shown, Value.shownItems_eq_map, encodeAt, encodeAt, same]
      | _ => simpa [Value.shown, encodeAt] using encodeFlat_shown p _ (.list items)
    | map fields =>
      cases a with
      | map schema =>
        have each : ∀ field ∈ fields, ∀ p a, encodeAt p a field.2.shown = encodeAt p a field.2 :=
          fun field member p a => ih _ (Value.mem_contents_map member) p a
        rw [Value.shown, Value.shownFields_eq_map, encodeAt, encodeAt, encodeFields_shown each]
      | _ => simpa [Value.shown, encodeAt] using encodeFlat_shown p _ (.map fields)
    | date t => simpa [Value.shown, encodeAt] using encodeFlat_shown p a (.date t)
    | _ => rfl

end ItemSchema
