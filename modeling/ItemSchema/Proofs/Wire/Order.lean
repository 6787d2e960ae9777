import ItemSchema.Proofs.Record
import ItemSchema.Wire

/-! Wire values whose maps are records. Text can name the fields of a map in any order and more than
once, so a value is read from it up to that order. -/
namespace ItemSchema

mutual

/-- The value with all its maps as records. -/
def Wire.inOrder : Wire → Wire
  | .m fields => .m (Record.ofList (Wire.fieldsInOrder fields))
  | .l items => .l (Wire.itemsInOrder items)
  | leaf => leaf

def Wire.itemsInOrder : List Wire → List Wire
  | [] => []
  | item :: rest => item.inOrder :: Wire.itemsInOrder rest

def Wire.fieldsInOrder : List (String × Wire) → List (String × Wire)
  | [] => []
  | (name, w) :: rest => (name, w.inOrder) :: Wire.fieldsInOrder rest

end

def Item.inOrder (item : Item) : Item :=
  Record.ofList (Wire.fieldsInOrder item)

/-- A value without other values in it. -/
def Wire.isLeaf : Wire → Bool
  | .m _ | .l _ => false
  | _ => true

theorem Wire.contents_induction {P : Wire → Prop} (leaf : ∀ w, w.isLeaf = true → P w)
    (map : ∀ fields : List (String × Wire), (∀ field ∈ fields, P field.2) → P (.m fields))
    (list : ∀ items : List Wire, (∀ item ∈ items, P item) → P (.l items)) (w : Wire) : P w :=
  @Wire.rec P (fun fields => ∀ field ∈ fields, P field.2) (fun items => ∀ item ∈ items, P item)
    (fun field => P field.2)
    (fun _ => leaf _ rfl) (fun _ => leaf _ rfl) (fun _ => leaf _ rfl) (fun _ => leaf _ rfl)
    (leaf _ rfl) map list (fun _ => leaf _ rfl) (fun _ => leaf _ rfl) (fun _ => leaf _ rfl)
    (by simp) (fun _ _ first rest => List.forall_mem_cons.mpr ⟨first, rest⟩)
    (by simp) (fun _ _ first rest => List.forall_mem_cons.mpr ⟨first, rest⟩)
    (fun _ _ value => value) w

/-- All maps of the value are records. -/
inductive Wire.Ordered : Wire → Prop where
  | leaf {w : Wire} (flat : w.isLeaf = true) : Wire.Ordered w
  | map {fields : List (String × Wire)} (sorted : Record.Sorted fields)
    (each : ∀ field ∈ fields, Wire.Ordered field.2) : Wire.Ordered (.m fields)
  | list {items : List Wire} (each : ∀ item ∈ items, Wire.Ordered item) : Wire.Ordered (.l items)

structure Item.Ordered (item : Item) : Prop where
  sorted : Record.Sorted item
  each : ∀ field ∈ item, field.2.Ordered

theorem Wire.itemsInOrder_eq_map (items : List Wire) :
    Wire.itemsInOrder items = items.map Wire.inOrder := by
  induction items with
  | nil => rfl
  | cons item rest ih => rw [Wire.itemsInOrder, ih, List.map_cons]

theorem Wire.fieldsInOrder_eq_map (fields : List (String × Wire)) :
    Wire.fieldsInOrder fields = fields.map fun field => (field.1, field.2.inOrder) := by
  induction fields with
  | nil => rfl
  | cons field rest ih => rw [Wire.fieldsInOrder, ih, List.map_cons]

theorem Wire.fieldsInOrder_eq_self {fields : List (String × Wire)}
    (each : ∀ field ∈ fields, field.2.inOrder = field.2) : Wire.fieldsInOrder fields = fields := by
  have same : ∀ field ∈ fields, (field.1, field.2.inOrder) = field := by
    intro field member
    rw [each field member]
  rw [Wire.fieldsInOrder_eq_map, List.map_congr_left same, List.map_id']

theorem Wire.Ordered.inOrder_eq {w : Wire} (ordered : w.Ordered) : w.inOrder = w := by
  induction ordered with
  | @leaf w flat =>
    cases w with
    | m | l => contradiction
    | _ => rfl
  | map sorted _ ih => rw [Wire.inOrder, Wire.fieldsInOrder_eq_self ih, sorted.ofList_eq]
  | list _ ih => rw [Wire.inOrder, Wire.itemsInOrder_eq_map, List.map_congr_left ih, List.map_id']

theorem Item.Ordered.inOrder_eq {item : Item} (ordered : item.Ordered) : item.inOrder = item := by
  have each : ∀ field ∈ item, field.2.inOrder = field.2 :=
    fun field member => (ordered.each field member).inOrder_eq
  rw [Item.inOrder, Wire.fieldsInOrder_eq_self each, ordered.sorted.ofList_eq]

end ItemSchema
