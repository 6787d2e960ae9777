import ItemSchema.Instant.Reader
import ItemSchema.Proofs.Numeral.Decimal
import ItemSchema.Proofs.Record
import ItemSchema.Proofs.Value
import ItemSchema.Schema

/-! The form that a value has after it was stored: sets without repetitions, timestamps as dates,
and in every map an empty container for each list and map that it lacks. Null, scalars and all
other structure stay as they are. -/
namespace ItemSchema

/-- The empty value of lists and maps. -/
def Attribute.emptyContainer? : Attribute → Option Value
  | .list _ => some (.list [])
  | .map _ => some (.map [])
  | _ => none

def Schema.emptyContainers (schema : Schema) : Record Value :=
  Record.ofList (Record.select (fun _ a => a.emptyContainer?) schema)

namespace Value

/-- Whether a set holds two members only once: numbers are compared by value. -/
def sameMember : Value → Value → Bool
  | .string s, .string t => s = t
  | .number d, .number e => d.value = e.value
  | .binary b, .binary c => b = c
  | _, _ => false

/-- The first occurrence of each member. -/
def distinctMembers (members : List Value) : List Value :=
  members.eraseDupsBy sameMember

mutual

def normal : Attribute → Value → Value
  | .scalar .date, .string s =>
    match Instant.ofText? s with
    | some t => .date t
    | none => .string s
  | .set _, .set members | .set _, .list members => .set (distinctMembers members)
  | .list (some item), .list items => .list (normalItems item items)
  | .map schema, .map fields => .map (normalFields schema fields)
  | _, v => v

def normalItems (item : Attribute) : List Value → List Value
  | [] => []
  | v :: rest => v.normal item :: normalItems item rest

/-- The fields that there are, over the empty containers of the schema. -/
def normalFields (schema : Schema) : List (String × Value) → Record Value
  | [] => schema.emptyContainers
  | (name, v) :: rest =>
    let v := match schema.get? name with
      | some a => v.normal a
      | none => v
    Record.insert name v (normalFields schema rest)

end

mutual

/-- The same value with no sign at any zero. -/
def dropZeroSigns : Value → Value
  | .number d => .number d.dropZeroSign
  | .set members => .set (dropItemSigns members)
  | .list items => .list (dropItemSigns items)
  | .map fields => .map (dropFieldSigns fields)
  | v => v

def dropItemSigns : List Value → List Value
  | [] => []
  | v :: rest => v.dropZeroSigns :: dropItemSigns rest

def dropFieldSigns : List (String × Value) → List (String × Value)
  | [] => []
  | (name, v) :: rest => (name, v.dropZeroSigns) :: dropFieldSigns rest

end

mutual

/-- The dates of a value with an attribute, given as such or as timestamps. -/
def dates : Attribute → Value → List Instant
  | .scalar .date, .date t => [t]
  | .scalar .date, .string s => (Instant.ofText? s).toList
  | .list (some item), .list items => itemDates item items
  | .map schema, .map fields => fieldDates schema fields
  | _, _ => []

def itemDates (item : Attribute) : List Value → List Instant
  | [] => []
  | v :: rest => v.dates item ++ itemDates item rest

def fieldDates (schema : Schema) : List (String × Value) → List Instant
  | [] => []
  | (name, v) :: rest =>
    (match schema.get? name with
      | some a => v.dates a
      | none => []) ++ fieldDates schema rest

end

section

variable {schema : Schema} {fields : List (String × Value)}

theorem normal_null (a : Attribute) : Value.null.normal a = .null := by
  cases a with
  | scalar of => cases of <;> rfl
  | list items => cases items <;> rfl
  | _ => rfl

theorem dates_null (a : Attribute) : Value.null.dates a = [] := by
  cases a with
  | scalar of => cases of <;> rfl
  | list items => cases items <;> rfl
  | _ => rfl

/-- Keys are never dates, so they have the normal form of their scalar type, which is none. -/
theorem normal_of_scalarType (typed : a.kind.scalarType? = some of) (v : Value) :
    v.normal a = v.normal (.scalar of) ∧ v.dates a = v.dates (.scalar of) := by
  cases a with
  | partitionKey key | sortKey key =>
    cases typed
    cases key <;> cases v <;> exact ⟨rfl, rfl⟩
  | scalar of =>
    cases typed
    exact ⟨rfl, rfl⟩
  | _ => cases typed

theorem normalItems_eq_map (item : Attribute) (items : List Value) :
    normalItems item items = items.map (normal item) := by
  induction items with
  | nil => rfl
  | cons v rest ih => rw [normalItems, ih, List.map_cons]

theorem normalFields_sorted (schema : Schema) (fields : List (String × Value)) :
    Record.Sorted (normalFields schema fields) := by
  induction fields with
  | nil => exact Record.ofList_sorted _
  | cons entry rest ih => exact Record.insert_sorted ih _ _

theorem find?_emptyContainers (distinct : (schema.map Prod.fst).Nodup) (name : String) :
    Record.find? name schema.emptyContainers =
      (schema.get? name).bind Attribute.emptyContainer? := by
  rw [Schema.emptyContainers, Record.find?_ofList_select _ distinct, Schema.get?]

/-- A field that is there is in its normal form, and one that is not may be an empty container. -/
theorem find?_normalFields (distinct : (schema.map Prod.fst).Nodup)
    (known : ∀ entry ∈ fields, (schema.get? entry.1).isSome = true) (name : String) :
    Record.find? name (normalFields schema fields) =
      (schema.get? name).bind fun a =>
        ((Record.find? name fields).map (normal a)).or a.emptyContainer? := by
  induction fields with
  | nil =>
    rw [normalFields, find?_emptyContainers distinct]
    cases schema.get? name <;> rfl
  | cons entry rest ih =>
    obtain ⟨key, v⟩ := entry
    obtain ⟨here, known⟩ := List.forall_mem_cons.mp known
    obtain ⟨a, found⟩ := Option.isSome_iff_exists.mp here
    dsimp only at found
    simp only [normalFields, found, Record.find?_insert, ih known, Record.find?]
    by_cases same : name = key
    · simp [same, found]
    · simp [same]

theorem dropItemSigns_eq_map (items : List Value) :
    dropItemSigns items = items.map dropZeroSigns := by
  induction items with
  | nil => rfl
  | cons v rest ih => rw [dropItemSigns, ih, List.map_cons]

theorem dropFieldSigns_eq_map (fields : List (String × Value)) :
    dropFieldSigns fields = fields.map fun entry => (entry.1, entry.2.dropZeroSigns) := by
  induction fields with
  | nil => rfl
  | cons entry rest ih => rw [dropFieldSigns, ih, List.map_cons]

theorem dropFieldSigns_sorted (sorted : Record.Sorted fields) :
    Record.Sorted (dropFieldSigns fields) := by
  rw [dropFieldSigns_eq_map]
  exact sorted.map fun _ => dropZeroSigns

theorem find?_dropFieldSigns (fields : List (String × Value)) (name : String) :
    Record.find? name (dropFieldSigns fields) =
      (Record.find? name fields).map dropZeroSigns := by
  rw [dropFieldSigns_eq_map]
  exact Record.find?_map (fun _ => dropZeroSigns) fields name

theorem mem_itemDates_iff : t ∈ itemDates item items ↔ ∃ v ∈ items, t ∈ dates item v := by
  induction items with
  | nil => simp [itemDates]
  | cons v rest ih => simp [itemDates, ih]

theorem mem_fieldDates_iff : t ∈ fieldDates schema fields ↔
    ∃ name v a, (name, v) ∈ fields ∧ schema.get? name = some a ∧ t ∈ dates a v := by
  induction fields with
  | nil => simp [fieldDates]
  | cons first rest ih =>
    obtain ⟨key, u⟩ := first
    rw [fieldDates, List.mem_append, ih]
    constructor
    · rintro (date | ⟨name, v, a, member, found, date⟩)
      · cases found : schema.get? key with
        | none => simp [found] at date
        | some a => exact ⟨key, u, a, List.mem_cons_self, found, by simpa [found] using date⟩
      · exact ⟨name, v, a, List.mem_cons_of_mem _ member, found, date⟩
    · rintro ⟨name, v, a, member, found, date⟩
      rcases List.mem_cons.mp member with here | later
      · cases here
        exact .inl (by simpa [found] using date)
      · exact .inr ⟨name, v, a, later, found, date⟩

theorem mem_itemDates (member : v ∈ items) (date : t ∈ dates item v) :
    t ∈ itemDates item items :=
  mem_itemDates_iff.mpr ⟨v, member, date⟩

theorem mem_fieldDates (member : (name, v) ∈ fields) (found : schema.get? name = some a)
    (date : t ∈ dates a v) : t ∈ fieldDates schema fields :=
  mem_fieldDates_iff.mpr ⟨name, v, a, member, found, date⟩

end

theorem mem_of_mem_distinctMembers (member : v ∈ distinctMembers members) : v ∈ members := by
  match members with
  | [] => contradiction
  | first :: rest =>
    rw [distinctMembers, List.eraseDupsBy_cons] at member
    rcases List.mem_cons.mp member with rfl | later
    · exact List.mem_cons_self
    · exact List.mem_cons_of_mem _ (List.mem_of_mem_filter (mem_of_mem_distinctMembers later))
termination_by members.length
decreasing_by exact Nat.lt_succ_of_le (List.length_filter_le ..)

theorem dropItemSigns_eq_self : dropItemSigns items = items ↔
    ∀ v ∈ items, v.dropZeroSigns = v := by
  induction items with
  | nil => simp [dropItemSigns]
  | cons v rest ih => simp [dropItemSigns, ih]

theorem dropFieldSigns_eq_self {fields : List (String × Value)} :
    dropFieldSigns fields = fields ↔ ∀ entry ∈ fields, entry.2.dropZeroSigns = entry.2 := by
  induction fields with
  | nil => simp [dropFieldSigns]
  | cons entry rest ih =>
    rw [dropFieldSigns, List.cons.injEq, ih, List.forall_mem_cons, Prod.ext_iff]
    simp

theorem emptyContainer?_dropZeroSigns (a : Attribute) :
    a.emptyContainer?.map dropZeroSigns = a.emptyContainer? := by
  cases a <;> rfl

theorem mem_emptyContainers (member : entry ∈ Schema.emptyContainers schema) :
    ∃ a, (entry.1, a) ∈ schema ∧ a.emptyContainer? = some entry.2 := by
  obtain ⟨⟨name, a⟩, present, chosen⟩ := List.mem_filterMap.mp (Record.mem_ofList member)
  obtain ⟨v, empty, rfl⟩ := Option.map_eq_some_iff.mp chosen
  exact ⟨a, present, empty⟩

theorem mem_normalFields {fields : List (String × Value)}
    (member : entry ∈ normalFields schema fields) :
    entry ∈ schema.emptyContainers ∨ ∃ v, (entry.1, v) ∈ fields ∧
      (entry.2 = v ∨ ∃ a, entry.2 = v.normal a) := by
  induction fields with
  | nil => exact .inl member
  | cons field rest ih =>
    obtain ⟨name, v⟩ := field
    rcases Record.mem_insert member with here | later
    · subst here
      refine .inr ⟨v, List.mem_cons_self, ?_⟩
      cases schema.get? name with
      | none => exact .inl rfl
      | some a => exact .inr ⟨a, rfl⟩
    · apply (ih later).imp id
      rintro ⟨v, present, value⟩
      exact ⟨v, List.mem_cons_of_mem _ present, value⟩

/-- What a normal form can be. -/
theorem normal_cases (a : Attribute) (v : Value) :
    v.normal a = v ∨ (∃ t, v.normal a = .date t) ∨
      (∃ members, (v = .set members ∨ v = .list members) ∧
        v.normal a = .set (distinctMembers members)) ∨
      (∃ item items, v = .list items ∧ v.normal a = .list (items.map (normal item))) ∨
      ∃ schema fields, v = .map fields ∧ v.normal a = .map (normalFields schema fields) := by
  unfold normal
  split
  · split
    · exact .inr (.inl ⟨_, rfl⟩)
    · exact .inl rfl
  · exact .inr (.inr (.inl ⟨_, .inl rfl, rfl⟩))
  · exact .inr (.inr (.inl ⟨_, .inr rfl, rfl⟩))
  · rename_i item items
    rw [normalItems_eq_map]
    exact .inr (.inr (.inr (.inl ⟨item, items, rfl, rfl⟩)))
  · exact .inr (.inr (.inr (.inr ⟨_, _, rfl, rfl⟩)))
  · exact .inl rfl

theorem dropZeroSigns_contents {v : Value} (unsigned : v.dropZeroSigns = v) :
    ∀ u ∈ v.contents, u.dropZeroSigns = u := by
  intro u member
  cases v with
  | set items | list items =>
    simp only [dropZeroSigns, Value.set.injEq, Value.list.injEq, dropItemSigns_eq_self] at unsigned
    exact unsigned u member
  | map fields =>
    rw [dropZeroSigns, Value.map.injEq, dropFieldSigns_eq_self] at unsigned
    obtain ⟨field, inFields, rfl⟩ := List.mem_map.mp member
    exact unsigned field inFields
  | _ => contradiction

/-- A value without signs at its zeros gets none from its normal form. -/
theorem dropZeroSigns_normal {v : Value} (unsigned : v.dropZeroSigns = v) (a : Attribute) :
    (v.normal a).dropZeroSigns = v.normal a := by
  induction v using contents_induction generalizing a with
  | step v ih =>
    have each := dropZeroSigns_contents unsigned
    rcases normal_cases a v with same | ⟨t, date⟩ | ⟨members, given, set⟩ |
      ⟨item, items, rfl, list⟩ | ⟨schema, fields, rfl, map⟩
    · rw [same, unsigned]
    · rw [date]
      rfl
    · have inMembers : ∀ u ∈ members, u.dropZeroSigns = u := by
        rcases given with rfl | rfl <;> exact each
      rw [set, dropZeroSigns, dropItemSigns_eq_self.mpr fun u member =>
        inMembers u (mem_of_mem_distinctMembers member)]
    · have below : ∀ u ∈ items.map (normal item), u.dropZeroSigns = u := by
        intro u member
        obtain ⟨u, inItems, rfl⟩ := List.mem_map.mp member
        exact ih u inItems (each u inItems) item
      rw [list, dropZeroSigns, dropItemSigns_eq_self.mpr below]
    · have below : ∀ field ∈ normalFields schema fields, field.2.dropZeroSigns = field.2 := by
        intro field member
        rcases mem_normalFields member with empty | ⟨u, inFields, same | ⟨a, same⟩⟩
        · obtain ⟨a, _, container⟩ := mem_emptyContainers empty
          have same := emptyContainer?_dropZeroSigns a
          rw [container] at same
          exact Option.some.inj same
        · rw [same]
          exact each u (mem_contents_map inFields)
        · have inMap := mem_contents_map inFields
          rw [same]
          exact ih u inMap (each u inMap) a
      rw [map, dropZeroSigns, dropFieldSigns_eq_self.mpr below]

end Value

end ItemSchema
