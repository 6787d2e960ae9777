import ItemSchema.Proofs.Codec.NormalForm
import ItemSchema.Proofs.Except
import ItemSchema.Proofs.Json.Number
import ItemSchema.Value.Json

/-! What a JSON document gives back of a value. Sets come back as lists, dates as texts and numbers
without zeros at their end; integers of 64 bits, with or without a sign, keep their value. -/
namespace ItemSchema

namespace Decimal

/-- An integer that a document holds exactly, at whatever scale. -/
def IsInteger64 (d : Decimal) : Prop :=
  ∃ n : Int, d.value = n ∧ -2 ^ 63 ≤ n ∧ n < 2 ^ 64

/-- The normal form of an integer has no digits behind the point. -/
theorem normalize_of_value {d : Decimal} {n : Int} (same : d.value = n)
    (fits : n.natAbs < Nat.pow 2 96) :
    d.normalize = ⟨decide (n < 0), n.natAbs, 0, fits, by decide⟩ := by
  have plain : value ⟨decide (n < 0), n.natAbs, 0, fits, by decide⟩ = n := by
    by_cases negative : n < 0
    · simp [value, negative, abs_of_neg negative]
    · simp [value, negative, abs_of_nonneg (not_lt.mp negative)]
  rw [normalize_eq_iff.mpr (same.trans plain.symm), normalize]
  simp [stripZeros]
  omega

theorem normalize_toText {d : Decimal} {n : Int} (value : d.value = n)
    (fits : n.natAbs < Nat.pow 2 96) : d.normalize.toText = (Json.Number.integer n).toText := by
  rw [normalize_of_value value fits]
  simp [toText, Json.Number.toText]

@[simp] theorem normalize_normalize (d : Decimal) : d.normalize.normalize = d.normalize :=
  normalize_eq_iff.mpr (value_normalize d)

@[simp] theorem dropZeroSign_normalize (d : Decimal) :
    d.normalize.dropZeroSign = d.normalize := by
  have restore := stripZeros_restore d.magnitude d.scale
  have zero : (stripZeros d.magnitude d.scale).1 = 0 → d.magnitude = 0 := by
    intro stripped
    simpa [stripped] using restore
  by_cases none : (stripZeros d.magnitude d.scale).1 = 0
  · simp [dropZeroSign, normalize, zero none]
  · simp [dropZeroSign, normalize, none]

@[simp] theorem normalize_dropZeroSign (d : Decimal) :
    d.dropZeroSign.normalize = d.normalize :=
  normalize_eq_iff.mpr (value_dropZeroSign d)

end Decimal

/-- Entries that are all there are collected as they are. -/
theorem Record.collect_ok (f : α → β) (entries : List (String × α)) :
    collect (entries.map fun entry => (entry.1, (Except.ok (f entry.2) : Except ε β))) =
      .ok (entries.map fun entry => (entry.1, f entry.2)) := by
  induction entries with
  | nil => rfl
  | cons entry rest ih =>
    rw [List.map_cons, collect, ih]
    rfl

namespace Value

mutual

/-- What a document gives back of a value. Big integers are left out of account and stay. -/
def document : Value → Value
  | .number d => .number d.normalize
  | .date t => .string t.toText
  | .binary bytes => .string (Text.Base64.encode bytes)
  | .set members => .list (documentItems members)
  | .list items => .list (documentItems items)
  | .map fields => .map (documentFields fields)
  | v => v

def documentItems : List Value → List Value
  | [] => []
  | v :: rest => v.document :: documentItems rest

def documentFields : List (String × Value) → List (String × Value)
  | [] => []
  | (name, v) :: rest => (name, v.document) :: documentFields rest

end

mutual

/-- The same value with all numbers in normal form, so that numbers are compared by value. -/
def reduced : Value → Value
  | .number d => .number d.normalize
  | .set members => .set (reducedItems members)
  | .list items => .list (reducedItems items)
  | .map fields => .map (reducedFields fields)
  | v => v

def reducedItems : List Value → List Value
  | [] => []
  | v :: rest => v.reduced :: reducedItems rest

def reducedFields : List (String × Value) → List (String × Value)
  | [] => []
  | (name, v) :: rest => (name, v.reduced) :: reducedFields rest

end

mutual

/-- The numbers in a value. -/
def numbers : Value → List Decimal
  | .number d => [d]
  | .set members => numbersOfItems members
  | .list items => numbersOfItems items
  | .map fields => numbersOfFields fields
  | _ => []

def numbersOfItems : List Value → List Decimal
  | [] => []
  | v :: rest => v.numbers ++ numbersOfItems rest

def numbersOfFields : List (String × Value) → List Decimal
  | [] => []
  | (_, v) :: rest => v.numbers ++ numbersOfFields rest

end

/-- The values that a document holds: without big integers, and with integers of 64 bits for
numbers. The fields of their maps are records. -/
inductive Portable : Value → Prop where
  | null : Portable .null
  | bool (b : Bool) : Portable (.bool b)
  | number (whole : d.IsInteger64) : Portable (.number d)
  | string (s : String) : Portable (.string s)
  | date (t : Instant) : Portable (.date t)
  | binary (bytes : List UInt8) : Portable (.binary bytes)
  | set (each : ∀ v ∈ members, Portable v) : Portable (.set members)
  | list (each : ∀ v ∈ items, Portable v) : Portable (.list items)
  | map {fields : List (String × Value)} (sorted : Record.Sorted fields)
      (each : ∀ field ∈ fields, Portable field.2) : Portable (.map fields)

section

variable {items : List Value} {fields : List (String × Value)}

theorem documentItems_eq_map (items : List Value) : documentItems items = items.map document := by
  induction items with
  | nil => rfl
  | cons v rest ih => rw [documentItems, ih, List.map_cons]

theorem documentFields_eq_map (fields : List (String × Value)) :
    documentFields fields = fields.map fun field => (field.1, field.2.document) := by
  induction fields with
  | nil => rfl
  | cons field rest ih => rw [documentFields, ih, List.map_cons]

theorem reducedItems_eq_map (items : List Value) : reducedItems items = items.map reduced := by
  induction items with
  | nil => rfl
  | cons v rest ih => rw [reducedItems, ih, List.map_cons]

theorem reducedFields_eq_map (fields : List (String × Value)) :
    reducedFields fields = fields.map fun field => (field.1, field.2.reduced) := by
  induction fields with
  | nil => rfl
  | cons field rest ih => rw [reducedFields, ih, List.map_cons]

theorem numbersOfItems_eq_flatMap (items : List Value) :
    numbersOfItems items = items.flatMap numbers := by
  induction items with
  | nil => rfl
  | cons v rest ih => rw [numbersOfItems, ih, List.flatMap_cons]

theorem numbersOfFields_eq_flatMap (fields : List (String × Value)) :
    numbersOfFields fields = fields.flatMap fun field => field.2.numbers := by
  induction fields with
  | nil => rfl
  | cons field rest ih => rw [numbersOfFields, ih, List.flatMap_cons]

theorem mem_numbers_of_contents {u v : Value} (inside : u ∈ v.contents) (member : d ∈ u.numbers) :
    d ∈ v.numbers := by
  cases v with
  | set items | list items =>
    rw [numbers, numbersOfItems_eq_flatMap]
    exact List.mem_flatMap.mpr ⟨u, inside, member⟩
  | map fields =>
    obtain ⟨field, inFields, rfl⟩ := List.mem_map.mp inside
    rw [numbers, numbersOfFields_eq_flatMap]
    exact List.mem_flatMap.mpr ⟨field, inFields, member⟩
  | _ => contradiction

/-- A zero without its sign is the same number. -/
theorem reduced_dropZeroSigns (v : Value) : v.dropZeroSigns.reduced = v.reduced := by
  induction v using contents_induction with
  | step v ih =>
    cases v with
    | number d => rw [dropZeroSigns, reduced, reduced, Decimal.normalize_dropZeroSign]
    | set items | list items =>
      rw [dropZeroSigns, reduced, reduced, dropItemSigns_eq_map, reducedItems_eq_map,
        reducedItems_eq_map, List.map_map]
      exact congrArg _ (List.map_congr_left ih)
    | map fields =>
      have each : ∀ field ∈ fields, (field.1, field.2.dropZeroSigns.reduced) =
          (field.1, field.2.reduced) := fun field member =>
        congrArg _ (ih field.2 (mem_contents_map member))
      rw [dropZeroSigns, reduced, reduced, dropFieldSigns_eq_map, reducedFields_eq_map,
        reducedFields_eq_map, List.map_map]
      exact congrArg _ (List.map_congr_left each)
    | _ => rfl

theorem ofJson_number (whole : d.IsInteger64) :
    ofJson (Value.number d).toJson = .ok (.number d.normalize) := by
  obtain ⟨n, value, lower, upper⟩ := whole
  have fits : n.natAbs < Nat.pow 2 96 := by
    show n.natAbs < 2 ^ 96
    omega
  have text := Decimal.normalize_toText value fits
  rw [toJson, numberToJson, text, Json.Token.ofText_integer lower upper]
  dsimp only
  rw [ofJson, ← text, Decimal.ofText?_toText, Decimal.dropZeroSign_normalize]

theorem ofItems_toJson (each : ∀ v ∈ items, ofJson v.toJson = .ok v.document) :
    ofItems (itemsToJson items) = .ok (documentItems items) := by
  induction items with
  | nil => rfl
  | cons v rest ih =>
    obtain ⟨here, later⟩ := List.forall_mem_cons.mp each
    rw [itemsToJson, ofItems, here, ih later]
    rfl

theorem ofMembers_toJson (each : ∀ field ∈ fields, ofJson field.2.toJson = .ok field.2.document) :
    ofMembers (fieldsToJson fields) = fields.map fun field => (field.1, .ok field.2.document) := by
  induction fields with
  | nil => rfl
  | cons field rest ih =>
    obtain ⟨here, later⟩ := List.forall_mem_cons.mp each
    rw [fieldsToJson, ofMembers, here, ih later, List.map_cons]

theorem Portable.ofJson_toJson {v : Value} (portable : v.Portable) :
    ofJson v.toJson = .ok v.document := by
  induction portable with
  | null | bool | string | date | binary => rfl
  | number whole => exact ofJson_number whole
  | set each ih | list each ih =>
    rw [toJson, ofJson, ofItems_toJson ih]
    rfl
  | map sorted each ih =>
    have ordered := sorted.map fun _ v => (Except.ok v.document : Except Error Value)
    rw [toJson, ofJson, ofMembers_toJson ih, ordered.ofList_eq, Record.collect_ok,
      ← documentFields_eq_map]
    rfl

end

end Value

end ItemSchema
