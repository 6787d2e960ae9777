import ItemSchema.Proofs.Json.Reading
import ItemSchema.Proofs.Schema.Descent
import ItemSchema.Schema.Printer

/-! Schemas in JSON text. What is printed for a schema is read as this schema, with the fields of
every level in their order, and as nothing else. -/
namespace ItemSchema

/-- A description with one more member in front, which is no name. -/
def Description.add (d : Description) (key : String) (value : Json) : Description :=
  match key with
  | "type" => { d with type := value :: d.type }
  | "of" => { d with of := value :: d.of }
  | "items" => { d with items := readItem value :: d.items }
  | "fields" => { d with fields := readFields value :: d.fields }
  | _ => d

/-- A member that is no name must be sound. -/
theorem describe_other (other : ¬(definition && decide (key = "name")) = true) :
    describe definition named fault ((key, value) :: rest) =
      if value.intact then (Description.add · key value) <$> describe definition named fault rest
      else .error .malformed := by
  rw [describe, if_neg other]
  cases value.intact with
  | false => rfl
  | true => cases describe definition named fault rest <;> rfl

theorem describe_cons (other : key ≠ "name") (sound : value.intact = true)
    (behind : describe definition named fault rest = .ok d) :
    describe definition named fault ((key, value) :: rest) = .ok (d.add key value) := by
  rw [describe_other (by simp [other]), if_pos sound, behind]
  rfl

/-- A type, and one more member that belongs to it. -/
theorem describe_typed (type : String) (other : key ≠ "name") (sound : value.intact = true) :
    describe definition named none [("type", .string type), (key, value)] =
      .ok ((Description.empty.add key value).add "type" (.string type)) :=
  describe_cons (by decide) rfl (describe_cons other sound rfl)

namespace Attribute

/-- What the members of an attribute say about it. -/
def description : Attribute → Description
  | .partitionKey of => ⟨none, [.string "partitionKey"], [.string of.scalarType.name], [], []⟩
  | .sortKey of => ⟨none, [.string "sortKey"], [.string of.scalarType.name], [], []⟩
  | .scalar of => ⟨none, [.string "scalar"], [.string of.name], [], []⟩
  | .set of => ⟨none, [.string "set"], [.string of.element], [], []⟩
  | .list none => ⟨none, [.string "list"], [], [], []⟩
  | .list (some item) => ⟨none, [.string "list"], [], [.ok (some item)], []⟩
  | .map fields => ⟨none, [.string "map"], [], [], [.ok fields]⟩

/-- The description of an attribute is that of no other, wherever it stands. -/
theorem toAttribute_description (nested : Bool) (a : Attribute) :
    a.description.toAttribute nested = .ok a := by
  cases a with
  | partitionKey of | sortKey of | scalar of | set of => cases of <;> rfl
  | list item => cases item <;> rfl
  | map fields => rfl

end Attribute

/-- The members of a named attribute. -/
def definitionMembers (field : String × Attribute) : List (String × Json) :=
  ("name", .string field.1) :: field.2.members

theorem definitions_eq_map (fields : List (String × Attribute)) :
    definitions fields = fields.map fun field => .object (definitionMembers field) none := by
  induction fields with
  | nil => rfl
  | cons field rest ih => rw [definitions, ih, List.map_cons, definitionMembers]

namespace Attribute

theorem members_textual (a : Attribute) : ∀ member ∈ a.members, member.2.Textual := by
  induction a using below_induction with
  | scalar a of typed =>
    cases a with
    | partitionKey | sortKey | scalar => simp [members, Json.Textual.string]
    | _ => contradiction
  | set of => simp [members, Json.Textual.string]
  | bare => simp [members, Json.Textual.string]
  | list item ih => simp [members, Json.Textual.string, Json.Textual.object ih]
  | map fields ih =>
    have each : Json.Textual (.array (definitions fields)) := by
      apply Json.Textual.array
      rw [definitions_eq_map, List.forall_mem_map]
      intro field member
      exact .object (List.forall_mem_cons.mpr ⟨.string _, ih field member⟩)
    simp [members, Json.Textual.string, each]

theorem toJson_textual (a : Attribute) : a.toJson.Textual :=
  .object a.members_textual

/-- The members of an attribute are collected to its description. -/
def Described (a : Attribute) : Prop :=
  ∀ definition named, describe definition named none a.members = .ok a.description

theorem Described.readItem_eq {a : Attribute} (described : a.Described) :
    readItem (.object a.members none) = .ok (some a) := by
  simp only [readItem, bind_eq_ok]
  exact ⟨_, described false false, a, toAttribute_description true a, rfl⟩

theorem Described.readDefinition_eq {a : Attribute} (described : a.Described) (name : String) :
    readDefinition (.object (definitionMembers (name, a)) none) = .ok (name, a) := by
  have collected : describe true false none (definitionMembers (name, a)) =
      .ok { a.description with name := some name } := by
    rw [definitionMembers, describe, described]
    rfl
  rw [readDefinition, collected]
  exact congrArg (Prod.mk name <$> ·) (toAttribute_description true a)

theorem readFields_definitions {fields : List (String × Attribute)}
    (each : ∀ field ∈ fields, field.2.Described) :
    readFields (.array (definitions fields)) = .ok fields := by
  rw [readFields, definitions_eq_map]
  induction fields with
  | nil => rfl
  | cons field rest ih =>
    obtain ⟨here, later⟩ := List.forall_mem_cons.mp each
    rw [List.map_cons, readDefinitions, here.readDefinition_eq, ih later]
    rfl

theorem described (a : Attribute) : a.Described := by
  induction a using below_induction with
  | scalar a of typed =>
    intro definition named
    cases a with
    | partitionKey of => exact describe_typed "partitionKey" (by decide) rfl
    | sortKey of => exact describe_typed "sortKey" (by decide) rfl
    | scalar of => exact describe_typed "scalar" (by decide) rfl
    | _ => contradiction
  | set of => exact fun _ _ => describe_typed "set" (by decide) rfl
  | bare =>
    intro definition named
    have alone : describe definition named none [("type", .string "list")] =
        .ok (Description.empty.add "type" (.string "list")) :=
      describe_cons (by decide) rfl rfl
    exact alone
  | list item ih =>
    intro definition named
    have sound : (Json.object item.members none).intact = true := item.toJson_textual.intact
    rw [members, describe_typed "list" (by decide) sound]
    simp [Description.add, ih.readItem_eq, description, Description.empty]
  | map fields ih =>
    intro definition named
    have sound : (Json.array (definitions fields)).intact = true :=
      ((Attribute.map fields).members_textual ("fields", _) (by simp [members])).intact
    rw [members, describe_typed "map" (by decide) sound]
    simp [Description.add, readFields_definitions ih, description, Description.empty]

theorem ofJson_toJson (a : Attribute) : ofJson a.toJson = .ok a := by
  simp only [ofJson, toJson, Json.readMembers, bind_eq_ok]
  exact ⟨_, rfl, _, a.described false false, toAttribute_description false a⟩

end Attribute

/-- Whatever is collected has no fault in it, be it looked at or not. -/
theorem describe_intact (collected : describe definition named fault members = .ok d) :
    (Json.object members fault).intact = true := by
  rw [Json.intact_object]
  induction members generalizing named d with
  | nil =>
    rw [describe, bind_eq_ok] at collected
    obtain ⟨_, whole, _⟩ := collected
    exact ⟨by simp, Json.noFault_ok_iff.mp whole⟩
  | cons member rest ih =>
    obtain ⟨key, value⟩ := member
    have parts : value.intact = true ∧
        ∃ named d, describe definition named fault rest = .ok d := by
      by_cases name : (definition && decide (key = "name")) = true
      · rw [describe, if_pos name] at collected
        split at collected
        · contradiction
        · simp only [bind_eq_ok, Json.readString_ok_iff] at collected
          obtain ⟨text, rfl, behind, further, _⟩ := collected
          exact ⟨rfl, true, behind, further⟩
      · rw [describe_other name] at collected
        split at collected
        · obtain ⟨behind, further, _⟩ := map_eq_ok.mp collected
          exact ⟨‹_›, named, behind, further⟩
        · contradiction
    obtain ⟨sound, _, _, further⟩ := parts
    obtain ⟨later, whole⟩ := ih further
    exact ⟨List.forall_mem_cons.mpr ⟨sound, later⟩, whole⟩

theorem readDefinitions_intact (read : readDefinitions items = .ok schema) :
    ∀ item ∈ items, item.intact = true := by
  induction items generalizing schema with
  | nil => simp
  | cons item rest ih =>
    simp only [readDefinitions, bind_eq_ok] at read
    obtain ⟨field, here, behind, later, _⟩ := read
    refine List.forall_mem_cons.mpr ⟨?_, ih later⟩
    cases item with
    | object members fault =>
      rw [readDefinition, bind_eq_ok] at here
      obtain ⟨_, collected, _⟩ := here
      exact describe_intact collected
    | _ => cases here

theorem Attribute.ofJson_intact {a : Attribute} (read : ofJson j = .ok a) : j.intact = true := by
  cases j with
  | object members fault =>
    simp only [ofJson, Json.readMembers, bind_eq_ok, Except.ok.injEq] at read
    obtain ⟨_, rfl, _, collected, _⟩ := read
    exact describe_intact collected
  | _ => cases read

namespace Schema

theorem ofJson_intact {schema : Schema} (read : ofJson j = .ok schema) : j.intact = true := by
  cases j with
  | array items => exact (Json.intact_array items).mpr (readDefinitions_intact read)
  | _ => cases read

theorem toJson_textual (schema : Schema) : schema.toJson.Textual :=
  (Attribute.map schema).members_textual ("fields", schema.toJson)
    (by simp [toJson, Attribute.members])

theorem ofJson_toJson (schema : Schema) : ofJson schema.toJson = .ok schema :=
  Attribute.readFields_definitions fun field _ => field.2.described

theorem read_print_ok_iff {schema read : Schema} :
    (Json.parse schema.toJson.print).read ofJson = .ok read ↔
      schema.toJson.depth ≤ Json.maxDepth ∧ read = schema := by
  rw [Json.read_print_iff ofJson_intact schema.toJson_textual, ofJson_toJson, Except.ok.injEq,
    eq_comm (a := schema)]

/-- What is printed for a schema or an attribute is read as the same again, checked or not, and as
nothing else, as long as it does not nest deeper than a text may. The text of a schema is that of an
entity just when the schema passes the checks. -/
theorem reads_printed :
    (∀ schema read : Schema,
      ((Json.parse schema.toJson.print).read ofJson = .ok read ↔
        schema.toJson.depth ≤ Json.maxDepth ∧ read = schema) ∧
      (ofText schema.toJson.print = .ok read ↔
        schema.toJson.depth ≤ Json.maxDepth ∧ read = schema ∧
          schema.checkStructure = .ok () ∧ schema.checkEntity = .ok ())) ∧
    ∀ a read : Attribute,
      (Json.parse a.toJson.print).read Attribute.ofJson = .ok read ↔
        a.toJson.depth ≤ Json.maxDepth ∧ read = a := by
  refine ⟨fun schema read => ⟨read_print_ok_iff, ?_⟩, fun a read => ?_⟩
  · simp only [ofText, bind_eq_ok, mapError_eq_ok, read_print_ok_iff, except_pure, Except.ok.injEq]
    constructor
    · rintro ⟨_, ⟨within, rfl⟩, _, structured, _, entity, rfl⟩
      exact ⟨within, rfl, structured, entity⟩
    · rintro ⟨within, rfl, structured, entity⟩
      exact ⟨read, ⟨within, rfl⟩, (), structured, (), entity, rfl⟩
  · rw [Json.read_print_iff Attribute.ofJson_intact a.toJson_textual, Attribute.ofJson_toJson,
      Except.ok.injEq, eq_comm (a := a)]

end Schema

end ItemSchema
