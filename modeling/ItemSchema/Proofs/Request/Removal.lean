import ItemSchema.Proofs.Codec.Distinct
import ItemSchema.Proofs.Codec.Encoding
import ItemSchema.Proofs.Numeral.Decimal
import ItemSchema.Proofs.Request.Change

/-! What an update deletes. A set or a list becomes a stored set that has each of its members once;
null, which any attribute but a key can be, is passed on as it is. -/
namespace ItemSchema

/-- A stored set of the given members, in which each of them is once. Numbers of one value are one
member. -/
inductive SetType.Stores : SetType → List Value → Wire → Prop where
  | string (nonempty : texts ≠ []) (once : texts.Nodup)
      (own : ∀ s ∈ texts, Value.string s ∈ given)
      (all : ∀ v ∈ given, ∃ s ∈ texts, v = .string s) : Stores .string given (.ss texts)
  | number (nonempty : ds ≠ []) (once : (ds.map Decimal.toText).Nodup)
      (values : (ds.map Decimal.value).Nodup) (own : ∀ d ∈ ds, Value.number d ∈ given)
      (all : ∀ v ∈ given, ∃ e, v = .number e ∧ ∃ d ∈ ds, d.value = e.value) :
      Stores .number given (.ns (ds.map Decimal.toText))
  | binary (nonempty : binaries ≠ []) (once : binaries.Nodup)
      (own : ∀ b ∈ binaries, Value.binary b ∈ given)
      (all : ∀ v ∈ given, ∃ b ∈ binaries, v = .binary b) : Stores .binary given (.bs binaries)

section

variable {α : Type} [DecidableEq α]

theorem distinctBy_id_nodup (xs : List α) : (distinctBy id [] xs).Nodup := by
  simpa using distinctBy_nodup id [] xs

theorem mem_distinctBy_id {x : α} {xs : List α} : x ∈ distinctBy id [] xs ↔ x ∈ xs := by
  constructor
  · exact fun kept => (mem_of_mem_distinctBy kept).1
  · intro member
    obtain ⟨y, kept, rfl⟩ := exists_mem_distinctBy id member List.not_mem_nil
    exact kept

end

theorem encodeMembers_stores (nonempty : given ≠ []) (encoded : encodeMembers p of given = .ok w) :
    of.Stores given w := by
  replace encoded := encodeMembers_ok_iff.mp encoded
  cases of with
  | string =>
    obtain ⟨texts, rfl, rfl⟩ := encoded
    refine .string (distinctBy_ne_nil (by simpa using nonempty)) (distinctBy_id_nodup texts) ?_ ?_
    · intro s kept
      exact List.mem_map_of_mem (mem_distinctBy_id.mp kept)
    · intro v member
      obtain ⟨s, inside, rfl⟩ := List.mem_map.mp member
      exact ⟨s, mem_distinctBy_id.mpr inside, rfl⟩
  | number =>
    obtain ⟨numbers, rfl, rfl⟩ := encoded
    have values : ((distinctBy Decimal.normalize [] numbers).map Decimal.value).Nodup :=
      List.pairwise_map.mpr ((List.pairwise_map.mp (distinctBy_nodup _ [] numbers)).imp
        fun apart same => apart (Decimal.normalize_eq_iff.mpr same))
    have once : ((distinctBy Decimal.normalize [] numbers).map Decimal.toText).Nodup :=
      List.pairwise_map.mpr ((List.pairwise_map.mp values).imp
        fun apart same => apart (Decimal.value_of_toText same))
    refine .number (distinctBy_ne_nil (by simpa using nonempty)) once values ?_ ?_
    · intro d kept
      exact List.mem_map_of_mem (mem_of_mem_distinctBy kept).1
    · intro v member
      obtain ⟨e, inside, rfl⟩ := List.mem_map.mp member
      obtain ⟨d, kept, same⟩ := exists_mem_distinctBy Decimal.normalize inside List.not_mem_nil
      exact ⟨e, rfl, d, kept, Decimal.normalize_eq_iff.mp same⟩
  | binary =>
    obtain ⟨binaries, rfl, rfl⟩ := encoded
    refine .binary (distinctBy_ne_nil (by simpa using nonempty)) (distinctBy_id_nodup binaries) ?_ ?_
    · intro b kept
      exact List.mem_map_of_mem (mem_distinctBy_id.mp kept)
    · intro v member
      obtain ⟨b, inside, rfl⟩ := List.mem_map.mp member
      exact ⟨b, mem_distinctBy_id.mpr inside, rfl⟩

/-- The deletions among some actions. -/
def UpdateAction.deletions (actions : List (UpdateAction ν ω)) : List (UpdateAction ν ω) :=
  actions.filter fun a => a.keyword = .delete

/-- What becomes of a deletion from a set: its members, or null. -/
inductive Removal (schema : Schema) : Change → Action → Prop where
  | members (resolved : schema.resolve p = .ok (.set of)) (row : v = .set given ∨ v = .list given)
      (stored : of.Stores given w) : Removal schema (.delete p v) (.delete p w)
  | null (resolved : schema.resolve p = .ok (.set of)) :
      Removal schema (.delete p .null) (.delete p .null)

theorem Change.Is.removal {schema : Schema} {change : Change} {a : Action}
    (made : change.Is schema a) (deletes : change.keyword = .delete) : Removal schema change a := by
  cases made with
  | set | remove => contradiction
  | delete resolved encoded =>
    cases encodesTo_of_ok encoded with
    | null => exact .null resolved
    | scalar typed => contradiction
    | set members =>
      obtain ⟨given, row, nonempty, encoded⟩ := encodeSet_ok_iff.mp members
      exact .members resolved row (encodeMembers_stores nonempty encoded)

theorem Change.Is.keyword_eq {schema : Schema} {change : Change} {a : Action}
    (made : change.Is schema a) : a.keyword = change.keyword := by
  cases made <;> rfl

/-- The actions of the clause for deletions are the deletions that were asked for. -/
theorem UpdateRequest.Tells.removals {r : UpdateRequest} {schema : Schema}
    {changes : List Change} {actions : List Action} {clauses : List (UpdateClause String Wire)}
    (tells : r.Tells schema changes actions clauses) :
    ∀ clause ∈ clauses, clause.keyword = .delete →
      List.Forall₂ (Removal schema) (UpdateAction.deletions changes) clause.actions := by
  intro clause member deletes
  rw [tells.grouped clause member, deletes]
  have asked : List.Forall₂ (Change.Is schema) (UpdateAction.deletions changes)
      (UpdateAction.deletions actions) :=
    List.rel_filter (fun change a made => by simp [made.keyword_eq]) tells.asked
  have each : ∀ change ∈ UpdateAction.deletions changes, change.keyword = .delete :=
    fun change member => of_decide_eq_true (List.mem_filter.mp member).2
  exact ((List.forall₂_and_left _ _).mpr ⟨each, asked⟩).imp fun _ _ ⟨deletes, made⟩ =>
    made.removal deletes

/-- In an update request every deletion stands for a stored set of its members, of the type that its
path leads to, unless it was asked to delete null. -/
theorem Table.update_removes (table : Table) :
    (∀ calls r, table.update calls = .ok r →
      ∃ (changes : List Change) (clauses : List (UpdateClause String Wire)),
        calls.filterMap UpdateCall.change? = changes.map .ok ∧
          r.aliases.update? r.update = some clauses ∧
          ∀ clause ∈ clauses, clause.keyword = .delete →
            List.Forall₂ (Removal table.schema) (UpdateAction.deletions changes) clause.actions) ∧
      ∀ (changes : List Change) (update : Update) r,
        List.Forall₂ (fun (change : Change) a => change.action table = .ok a) changes
          update.actions →
        update.request table = .ok r →
          ∃ clauses, r.aliases.update? r.update = some clauses ∧
            ∀ clause ∈ clauses, clause.keyword = .delete →
              List.Forall₂ (Removal table.schema) (UpdateAction.deletions changes)
                clause.actions := by
  constructor
  · intro calls r built
    obtain ⟨update, taken, built⟩ := bind_eq_ok.mp built
    obtain ⟨changes, actions, asked, made, same⟩ := Update.foldlM_changes taken
    rw [Update.empty, List.nil_append] at same
    cases same
    have tells := Update.request_tells made built
    exact ⟨changes, _, asked, tells.read, tells.removals⟩
  · intro changes update r made built
    have tells := Update.request_tells made built
    exact ⟨_, tells.read, tells.removals⟩

namespace Library

def schema : Schema :=
  [("isbn", .partitionKey .string), ("tags", .set .string),
    ("copies", .list (some (.map [("prices", .set .number)])))]

def table : Table :=
  ⟨.ofName "library", schema, rfl, rfl⟩

/-- One number at two scales, and a list for a set. -/
def cleaning : List UpdateCall :=
  [.delete "copies[3].prices" (.set [.number ⟨false, 15000, 4, by decide, by decide⟩,
      .number ⟨false, 150000, 5, by decide, by decide⟩]), .key (.map [("isbn", .string "x")]),
    .remove "copies[0]", .delete "tags" (.list [.string "old", .string "new", .string "old"])]

theorem cleaning_removes : ∃ r changes clauses, table.update cleaning = .ok r ∧
    r.update = "REMOVE #f0[0] DELETE #f0[3].#f1 :v0, #f2 :v1" ∧
    cleaning.filterMap UpdateCall.change? = changes.map .ok ∧
    r.aliases.update? r.update = some clauses ∧
    ∀ clause ∈ clauses, clause.keyword = .delete →
      List.Forall₂ (Removal schema) (UpdateAction.deletions changes) clause.actions := by
  have built : UpdateRequest.update <$> table.update cleaning =
      .ok "REMOVE #f0[0] DELETE #f0[3].#f1 :v0, #f2 :v1" := by decide +kernel
  obtain ⟨r, built, written⟩ := map_eq_ok.mp built
  obtain ⟨changes, clauses, asked, read, removals⟩ :=
    (Table.update_removes table).1 cleaning r built
  exact ⟨r, changes, clauses, built, written, asked, read, removals⟩

/-- Null is no set, but it may be deleted from one. -/
theorem null_deleted : schema.Accepted ∧
    schema.resolve [.field "tags"] = .ok (.set .string) ∧
    (∃ r, table.update [.key (.map [("isbn", .string "x")]), .delete "tags" .null] = .ok r ∧
      r.update = "DELETE #f0 :v0" ∧ Record.find? ":v0" r.aliases.values = some .null) ∧
    ∀ of given, ¬SetType.Stores of given .null := by
  refine ⟨.inr ⟨schema, rfl⟩, rfl, ⟨_, rfl, rfl, rfl⟩, ?_⟩
  intro of given stored
  cases stored

end Library

end ItemSchema
