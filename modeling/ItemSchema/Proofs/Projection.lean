import ItemSchema.Proofs.Codec.Filling
import ItemSchema.Proofs.Codec.PartialItem
import ItemSchema.Proofs.Exchange
import ItemSchema.Proofs.Schema.Walk

/-! Reads that ask for some attributes only. The store answers with parts of items, and each of them
is decoded as if it were a whole item: every list and map that was not asked for comes out empty. -/
namespace ItemSchema

/-- One of the paths goes on from the other. Indexes do not count, as the store leaves out the items
of a list that are not asked for and moves the others up. -/
def Path.Along (p q : Path) : Prop :=
  ∀ pair ∈ p.zip q, pair.1.AlikeButIndex pair.2

/-- The item has nothing but what is on the way to one of the paths or behind it. -/
def Item.Within (item : Item) (paths : List Path) : Prop :=
  ∀ q w, (Wire.m item).at? q = some w → ∃ p ∈ paths, q.Along p

/-- The paths that a read asks for. Without any it asks for whole items. -/
def Table.projection (table : Table) : RequestCalls → List Path
  | .query calls => (Query.final table calls).search.projection
  | .scan calls => (Search.final table .full calls).projection
  | .get calls => (Get.final table calls).projection
  | .put _ | .update _ | .delete _ => []

/-- The stored items that are decoded of an answer. -/
def Request.stored : Request → Response → List Item
  | .query r, response => r.window response.items
  | .scan r, response => r.window response.items
  | .get _, response => response.item.toList
  | .put _, response | .update _, response | .delete _, response => response.attributes.toList

def Answer.values : Answer → List Value
  | .items vs => vs
  | .item v => v.toList

/-- What comes out of a stored part of an item that is decoded as a whole one. -/
structure Table.Pads (table : Table) (paths : List Path) (item : Item) (v : Value) : Prop where
  /-- Everything that the part does not have is an empty list or map in one of its maps. -/
  added : ∀ q u, v.at? q = some u → (Wire.m item).at? q = none →
    (Attribute.map table.schema).Lacks (.m item) q u
  /-- Each list and map that one of its maps lacks is added. -/
  complete : table.schema.WellFormed → ∀ q u,
    (Attribute.map table.schema).Lacks (.m item) q u → v.at? q = some u
  /-- So is each list and map beside the paths. -/
  outside : table.schema.WellFormed → ∀ p fields entries name b u,
    (Attribute.map table.schema).Leads p (.map fields) → (Wire.m item).at? p = some (.m entries) →
    (name, b) ∈ fields → b.emptyContainer? = some u →
    (∀ path ∈ paths, ¬Path.Along (p ++ [.field name]) path) → v.at? (p ++ [.field name]) = some u
  /-- Decoding the part as a part would add nothing. -/
  part : table.schema.WellFormed → ∃ part, table.decodePartialItem item = .ok part ∧
    ∀ q u, part.at? q = some u → ((Wire.m item).at? q).isSome = true

theorem Segment.alike_field_iff {name other : String} :
    (Segment.field name).AlikeButIndex (.field other) ↔ name = other := by
  constructor
  · intro alike
    cases alike
    rfl
  · rintro rfl
    exact .field name

theorem Path.along_append (p q : Path) : p.Along (p ++ q) := by
  induction p with
  | nil => simp [Along]
  | cons s rest ih =>
    have here : s.AlikeButIndex s := by cases s <;> constructor
    simpa [Along, here] using ih

section

variable {table : Table} {item : Item} {v : Value}

theorem Schema.decodeAt_of_decodeWith {schema : Schema}
    (decoded : schema.decodeWith d item = .ok v) :
    decodeAt d [] (.map schema) (some (.m item)) = .ok (some v) := by
  rw [decodeAt_item]
  exact map_eq_ok.mpr ⟨v, decoded, rfl⟩

theorem Schema.decodeWith_part {schema : Schema} (wellFormed : schema.WellFormed)
    (decoded : schema.decodeItem item mode = .ok v) :
    ∃ part, schema.decodePartialItem item mode = .ok part := by
  have sound := Attribute.Sound.top wellFormed.toLevel
  have alike := decodeAt_fills mode sound [] (some (.m item))
  rw [decodeAt_item, decodeAt_item] at alike
  have alike := alike.of_map
  cases given : schema.decodePartialItem item mode with
  | ok part => exact ⟨part, rfl⟩
  | error e =>
    rw [show schema.decodeItem item mode = .error e from alike.error_iff.mp given] at decoded
    contradiction

theorem Table.pads (paths : List Path) (decoded : table.decodeItem item = .ok v)
    (within : item.Within paths) : table.Pads paths item v := by
  have whole := Schema.decodeAt_of_decodeWith decoded
  have complete : table.schema.WellFormed → ∀ q u,
      (Attribute.map table.schema).Lacks (.m item) q u → v.at? q = some u :=
    fun wellFormed q u => decodeAt_filled (.top wellFormed.toLevel) rfl whole
  constructor
  case added => exact fun q u held absent => (decodeAt_lacks whole absent held).2
  case complete => exact complete
  case outside =>
    intro wellFormed p fields entries name b u leads held member empty beside
    have absent : Record.find? name entries = none := by
      by_contra present
      obtain ⟨x, found⟩ := Option.ne_none_iff_exists'.mp present
      have reached : (Wire.m item).at? (p ++ [.field name]) = some x := by
        rw [Wire.at?_append, held, Option.bind_some, Wire.at?, found]
        rfl
      obtain ⟨path, asked, along⟩ := within _ x reached
      exact beside path asked along
    exact complete wellFormed _ _ (.field leads held absent member empty)
  case part =>
    intro wellFormed
    obtain ⟨part, read⟩ := Schema.decodeWith_part wellFormed decoded
    refine ⟨part, read, fun q u held => ?_⟩
    by_contra lacking
    rw [Option.not_isSome_iff_eq_none] at lacking
    have added := (decodeAt_lacks (Schema.decodeAt_of_decodeWith read) lacking held).1
    contradiction

/-- What is read with a projection was decoded item by item. -/
theorem Table.read_decodes {calls : RequestCalls} (projected : table.projection calls ≠ [])
    (built : table.request calls = .ok r) (read : table.read r response = .ok answer) :
    List.Forall₂ (fun item v => table.decodeItem item = .ok v) (r.stored response)
      answer.values := by
  cases calls with
  | query calls =>
    obtain ⟨s, _, rfl⟩ := map_eq_ok.mp built
    obtain ⟨vs, each, rfl⟩ := map_eq_ok.mp read
    exact mapM_eq_ok_iff_forall₂.mp each
  | scan calls =>
    obtain ⟨s, _, rfl⟩ := map_eq_ok.mp built
    obtain ⟨vs, each, rfl⟩ := map_eq_ok.mp read
    exact mapM_eq_ok_iff_forall₂.mp each
  | get calls =>
    obtain ⟨s, _, rfl⟩ := map_eq_ok.mp built
    obtain ⟨v, each, rfl⟩ := map_eq_ok.mp read
    change List.Forall₂ _ response.item.toList v.toList
    cases given : response.item with
    | none =>
      rw [given] at each
      cases each
      exact .nil
    | some item =>
      rw [given] at each
      obtain ⟨u, decoded, same⟩ := map_eq_ok.mp each
      cases same
      exact .cons decoded .nil
  | put | update | delete => contradiction

end

/-- Whatever a read asks for, the store gets one request for it, and each part of an item that it
answers with comes out padded: with an empty list or map for every list and map that was not asked
for, at the top and in every map of the part, and with nothing else. -/
theorem Table.projected_read (table : Table) {calls : RequestCalls}
    (projected : table.projection calls ≠ []) (built : table.request calls = .ok r)
    (within : ∀ item ∈ r.stored response, item.Within (table.projection calls)) :
    (∀ (m : Type → Type) [Monad m] [LawfulMonad m] (client : Client m),
      client r = pure (.ok response) →
        table.send client calls = pure (table.read r response)) ∧
      ∀ answer, table.read r response = .ok answer →
        List.Forall₂ (table.Pads (table.projection calls)) (r.stored response)
          answer.values := by
  constructor
  · intro m _ _ client answers
    rw [send_eq, built]
    change (client r >>= _) = _
    rw [answers, pure_bind]
  · intro answer read
    have each := (List.forall₂_and_left _ _).mpr ⟨within, read_decodes projected built read⟩
    exact each.imp fun item v ⟨inside, decoded⟩ => pads _ decoded inside

namespace Catalog

def details : Schema :=
  [("notes", .list (some (.scalar .string))), ("title", .scalar .string)]

def schema : Schema :=
  [("id", .partitionKey .string), ("name", .scalar .string),
    ("tags", .list (some (.scalar .string))), ("meta", .map details)]

def table : Table :=
  ⟨.ofName "catalog", schema, rfl, rfl⟩

def titles : RequestCalls :=
  .scan [.projection ["meta.title"]]

/-- What the store gives of an item when it is asked for the title. -/
def titled : Item :=
  [("meta", .m [("title", .s "t")])]

def answer : Response :=
  ⟨[titled], none, none, none⟩

theorem at?_single (held : (Wire.m [(name, w)]).at? q = some x) :
    q = [] ∨ ∃ rest, q = .field name :: rest ∧ w.at? rest = some x := by
  cases q with
  | nil => exact .inl rfl
  | cons s rest =>
    cases s with
    | index => contradiction
    | field key =>
      obtain ⟨y, found, held⟩ := Option.bind_eq_some_iff.mp held
      obtain ⟨⟩ := List.mem_singleton.mp (Record.mem_of_find? found)
      exact .inr ⟨rest, rfl, held⟩

theorem at?_text (held : (Wire.s text).at? q = some x) : q = [] := by
  cases q with
  | nil => rfl
  | cons s rest => cases s <;> contradiction

theorem titled_within : titled.Within [[.field "meta", .field "title"]] := by
  intro q w held
  refine ⟨_, List.mem_singleton_self _, ?_⟩
  obtain rfl | ⟨rest, rfl, inside⟩ := at?_single held
  · exact Path.along_append [] _
  · obtain rfl | ⟨rest, rfl, inside⟩ := at?_single inside
    · exact Path.along_append [.field "meta"] [.field "title"]
    · rw [at?_text inside]
      exact Path.along_append [.field "meta", .field "title"] []

theorem titles_padded : ∃ r v, table.request titles = .ok r ∧
    table.projection titles = [[.field "meta", .field "title"]] ∧
    titled.Within (table.projection titles) ∧
    table.send (fun _ => pure (.ok answer) : Client Id) titles = .ok (.items [v]) ∧
    v.at? [.field "tags"] = some (.list []) ∧
    v.at? [.field "meta", .field "notes"] = some (.list []) := by
  have asked : table.projection titles = [[.field "meta", .field "title"]] := by rfl
  have within : titled.Within (table.projection titles) := asked ▸ titled_within
  have wellFormed : table.schema.WellFormed := (Schema.checkStructure_ok_iff schema).mp rfl
  have down : (Attribute.map schema).Leads [.field "meta"] (.map details) :=
    .field (by simp [schema]) (.here _)
  have notes : (Attribute.map schema).Lacks (.m titled) [.field "meta", .field "notes"]
      (.list []) := .field (p := [.field "meta"]) down rfl rfl List.mem_cons_self rfl
  have beside : ∀ path ∈ table.projection titles,
      ¬Path.Along ([] ++ [.field "tags"]) path := by
    intro path member along
    rw [asked, List.mem_singleton] at member
    subst member
    have alike := along (.field "tags", .field "meta") List.mem_cons_self
    exact absurd (Segment.alike_field_iff.mp alike) (by decide)
  obtain ⟨r, v, built, stored, read⟩ : ∃ r v, table.request titles = .ok r ∧
      r.stored answer = [titled] ∧ table.read r answer = .ok (.items [v]) := ⟨_, _, rfl, rfl, rfl⟩
  have parts : ∀ item ∈ r.stored answer, item.Within (table.projection titles) := by
    rw [stored]
    simpa using within
  obtain ⟨sends, padded⟩ := table.projected_read (by simp [asked]) built parts
  have each := padded _ read
  rw [stored] at each
  cases each with
  | cons pads _ =>
    exact ⟨r, v, built, asked, within, (sends Id _ rfl).trans (congrArg pure read),
      pads.outside wellFormed [] schema titled "tags" (.list (some (.scalar .string))) _
        (.here _) rfl (by simp [schema]) rfl beside,
      pads.complete wellFormed _ _ notes⟩

def card : RequestCalls :=
  .get [.key (.map [("id", .string "x")]), .projection ["name"]]

def named : Item :=
  [("name", .s "n")]

/-- The list and the map come out though the store's item has neither. -/
theorem card_padded : table.projection card = [[.field "name"]] ∧
    named.Within [[.field "name"]] ∧
    table.send (fun _ => pure (.ok ⟨[], some named, none, none⟩) : Client Id) card =
      .ok (.item (some (.map [("meta", .map []), ("name", .string "n"), ("tags", .list [])]))) ∧
    (Wire.m named).at? [.field "meta"] = none ∧ (Wire.m named).at? [.field "tags"] = none ∧
    table.decodePartialItem named = .ok (.map [("name", .string "n")]) := by
  refine ⟨by rfl, ?_, by rfl, rfl, rfl, by rfl⟩
  intro q w held
  refine ⟨_, List.mem_singleton_self _, ?_⟩
  obtain rfl | ⟨rest, rfl, held⟩ := at?_single held
  · exact Path.along_append [] _
  · rw [at?_text held]
    exact Path.along_append [.field "name"] []

end Catalog

end ItemSchema
