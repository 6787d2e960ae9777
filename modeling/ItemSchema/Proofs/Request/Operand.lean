import ItemSchema.Expression.Draft
import ItemSchema.Proofs.Codec.Locality
import ItemSchema.Request.Update

/-! The operands of conditions and updates against what is stored: a value has the same wire form in
an expression as in an item that holds it. -/
namespace ItemSchema

theorem AttributeKind.admits_eq (kind : AttributeKind) : kind.admits (.compare .eq) = true := by
  cases kind <;> rfl

/-- What an item stores at a path is also the operand of an equality with the same value, and what
an update sets there. -/
theorem Schema.encodeItem_operand {schema : Schema} (encoded : schema.encodeItem v = .ok item)
    (resolved : schema.resolve p = .ok a) (held : v.at? p = some u) :
    ∃ x, (Wire.m item).at? p = some x ∧
      (SchemaView.compare ⟨schema, .full⟩ p (.compare .eq) u =
          .ok (.comparison p (.compare .eq) [x]) ∧
        ∀ text, Path.parse text = .ok p →
          SchemaView.condition ⟨schema, .full⟩ (.comparison text (.compare .eq) u) =
            .ok (.comparison p (.compare .eq) [x])) ∧
      ∀ table : Table, table.schema = schema → p.firstField?.any schema.isPrimaryKey = false →
        Update.setAction table p u = .ok (.set p x) ∧
          ∀ update text, Path.parse text = .ok p →
            Update.add table update (.set text u) = .ok (update.addAction (.set p x)) := by
  have whole := encodeAt_of_encodeItem encoded
  have followed : (Attribute.map schema).follow p [] p = .ok a := by
    cases p with
    | nil => contradiction
    | cons segment rest => exact resolved
  obtain ⟨x, stored, alone⟩ := encodeAt_at? whole followed held
  have shown := SchemaView.resolve_full resolved
  have compared : SchemaView.compare ⟨schema, .full⟩ p (.compare .eq) u =
      .ok (.comparison p (.compare .eq) [x]) := by
    simp [SchemaView.compare, shown, AttributeKind.admits_eq, encodeOperands, alone]
  refine ⟨x, stored, ⟨compared, ?_⟩, ?_⟩
  · intro text spelled
    rw [SchemaView.condition, PathRef.toPath_text, spelled]
    exact compared
  · rintro table rfl notKey
    have action : Update.setAction table p u = .ok (.set p x) := by
      have target : Update.target table p = .ok a := by
        rw [Update.target, notKey]
        exact shown
      simp [Update.setAction, target, alone]
    refine ⟨action, ?_⟩
    intro update text spelled
    simp [Update.add, spelled, action]

namespace Parcel

def schema : Schema :=
  [("id", .partitionKey .string),
    ("stops", .list (some (.map [("at", .scalar .date), ("codes", .set .number)])))]

def table : Table :=
  ⟨.ofName "parcels", schema, rfl, rfl⟩

/-- The first stop is open, and the time of the second one was given with an offset. -/
def sent : Value :=
  .map [("id", .string "p"),
    ("stops", .list [.null, .map [("at", .string "2024-01-31T09:15:00+01:00")]])]

def arrival : Path :=
  [.field "stops", .index 1, .field "at"]

theorem arrival_operand :
    ∃ item u, schema.encodeItem sent = .ok item ∧ sent.at? arrival = some u ∧
      (Wire.m item).at? arrival = some (.s "2024-01-31T08:15:00.000Z") ∧
      SchemaView.condition ⟨schema, .full⟩ (.comparison "stops[1].at" (.compare .eq) u) =
        .ok (.comparison arrival (.compare .eq) [.s "2024-01-31T08:15:00.000Z"]) ∧
      Update.add table (.empty table) (.set "stops[1].at" u) =
        .ok ((Update.empty table).addAction (.set arrival (.s "2024-01-31T08:15:00.000Z"))) := by
  obtain ⟨item, encoded, time⟩ : ∃ item, schema.encodeItem sent = .ok item ∧
      (Wire.m item).at? arrival = some (.s "2024-01-31T08:15:00.000Z") := ⟨_, rfl, rfl⟩
  have spelled : Path.parse "stops[1].at" = .ok arrival := by decide
  obtain ⟨x, stored, ⟨_, compared⟩, update⟩ := Schema.encodeItem_operand encoded
    (rfl : schema.resolve arrival = .ok (.scalar .date))
    (rfl : sent.at? arrival = some (.string "2024-01-31T09:15:00+01:00"))
  cases time.symm.trans stored
  obtain ⟨_, set⟩ := update table rfl rfl
  exact ⟨item, _, encoded, rfl, stored, compared _ spelled, set _ _ spelled⟩

end Parcel

end ItemSchema
