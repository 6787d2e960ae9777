import ItemSchema.Proofs.Wire.Json

/-! Wire values in JSON text. What was written is read back, up to the order of the fields in maps,
and each value is read from just the texts of its documents. -/
namespace ItemSchema

namespace Wire

theorem toJson_written (w : Wire) : Written w.toJson w.inOrder := by
  induction w using contents_induction with
  | leaf w flat =>
    cases w with
    | m | l => contradiction
    | s | n | b | bool | null | ss | ns | bs => constructor
  | map fields ih =>
    have written := Written.map (fields.map fun field => (field.1, field.2.toJson, field.2.inOrder))
      (List.forall_mem_map.mpr ih)
    rw [List.map_map, List.map_map] at written
    rw [toJson, inOrder, fieldsToJson_eq_map, fieldsInOrder_eq_map]
    exact written
  | list items ih =>
    have written := Written.list (items.map fun item => (item.toJson, item.inOrder))
      (List.forall_mem_map.mpr ih)
    rw [List.map_map, List.map_map] at written
    rw [toJson, inOrder, itemsToJson_eq_map, itemsInOrder_eq_map]
    exact written

theorem ofText_ok_iff {text : String} {w : Wire} :
    ofText text = .ok w ↔ ∃ j, Json.Denotes text j ∧ j.depth ≤ Json.maxDepth ∧ Written j w := by
  rw [ofText, mapError_eq_ok,
    Json.read_ok_iff fun {_ _} read => (ofJson_ok_iff.mp read).textual.intact]
  simp only [ofJson_ok_iff]

/-- The text of a value is read as that value. -/
theorem ofText_print {w : Wire} (within : w.toJson.depth ≤ Json.maxDepth) :
    ofText w.toJson.print = .ok w.inOrder := by
  rw [ofText_ok_iff]
  have written := toJson_written w
  exact ⟨w.toJson, Json.print_denotes written.textual, within, written⟩

end Wire

namespace Item

theorem toJson_textual (item : Item) : item.toJson.Textual := by
  apply Json.Textual.object
  rw [Wire.fieldsToJson_eq_map, List.forall_mem_map]
  intro field _
  exact (Wire.toJson_written field.2).textual

theorem ofJson_toJson (item : Item) : ofJson item.toJson = .ok item.inOrder := by
  have rows : ∀ row ∈ item.map fun field => (field.1, field.2.toJson, field.2.inOrder),
      Wire.ofJson row.2.1 = .ok row.2.2 := by
    rw [List.forall_mem_map]
    intro field _
    exact (Wire.toJson_written field.2).ofJson_eq
  have read := Wire.ofMembers_of_each rows
  rw [List.map_map, List.map_map] at read
  rw [toJson, Wire.fieldsToJson_eq_map, inOrder, Wire.fieldsInOrder_eq_map]
  simp only [ofJson, bind_eq_ok]
  exact ⟨_, rfl, _, read, (), rfl, rfl⟩

theorem read_print {item : Item} (within : item.toJson.depth ≤ Json.maxDepth) :
    (Json.parse item.toJson.print).read ofJson = .ok item.inOrder := by
  rw [(Json.print_denotes (toJson_textual item)).parse_eq within, Json.Document.read, ofJson_toJson]
  rfl

end Item

/-- Text carries wire values and items exactly. Whatever the order in which the fields of maps are
written, the value is read back, and a value that was read is read back as it is. A text is read as
a value just when it is one of the documents of the value. -/
theorem Wire.ofText_exact :
    (∀ w : Wire, w.toJson.depth ≤ Json.maxDepth →
      Wire.ofText w.toJson.print = .ok w.inOrder ∧
        (w.Ordered → Wire.ofText w.toJson.print = .ok w)) ∧
    (∀ item : Item, item.toJson.depth ≤ Json.maxDepth →
      (Json.parse item.toJson.print).read Item.ofJson = .ok item.inOrder ∧
        (item.Ordered → (Json.parse item.toJson.print).read Item.ofJson = .ok item)) ∧
    (∀ text w, Wire.ofText text = .ok w ↔
      ∃ j, Json.Denotes text j ∧ j.depth ≤ Json.maxDepth ∧ Wire.Written j w) ∧
    ∀ text w, Wire.ofText text = .ok w → Wire.ofText w.toJson.print = .ok w := by
  have value : ∀ {w : Wire}, w.toJson.depth ≤ Json.maxDepth → w.Ordered →
      Wire.ofText w.toJson.print = .ok w := by
    intro w within ordered
    rw [Wire.ofText_print within, ordered.inOrder_eq]
  refine ⟨?_, ?_, ?_, ?_⟩
  · intro w within
    exact ⟨Wire.ofText_print within, value within⟩
  · intro item within
    refine ⟨Item.read_print within, ?_⟩
    intro ordered
    rw [Item.read_print within, ordered.inOrder_eq]
  · intro text w
    exact Wire.ofText_ok_iff
  · intro text w read
    obtain ⟨j, _, within, written⟩ := Wire.ofText_ok_iff.mp read
    exact value (Nat.le_trans written.depth_le within) written.ordered

namespace Postcard

/-- A map names one field twice and has a null that is false. -/
def document : Json :=
  Wire.tagged .m (.object
    [("to", Wire.tagged .s (.string "Ann")), ("to", Wire.tagged .null (.bool false)),
      ("stamp", Wire.tagged .bs (.array [.string (Text.Base64.encode [1, 2])]))] none)

def fields : Item :=
  [("stamp", .bs [[1, 2]]), ("to", .null)]

theorem document_written : Wire.Written document (.m fields) := by
  refine .map [("to", _, .s "Ann"), ("to", _, .null), ("stamp", _, .bs [[1, 2]])] ?_
  simp only [List.forall_mem_cons]
  exact ⟨.string _, .null _, .binaries [[1, 2]], by simp⟩

theorem document_exact :
    Json.Denotes document.print document ∧ document.depth ≤ Json.maxDepth ∧
      Wire.ofText document.print = .ok (.m fields) ∧
      (Wire.m fields).Ordered ∧ Wire.ofText (Wire.m fields).toJson.print = .ok (.m fields) ∧
      fields.Ordered ∧ (Json.parse fields.toJson.print).read Item.ofJson = .ok fields := by
  have denotes := Json.print_denotes document_written.textual
  have within : document.depth ≤ Json.maxDepth := by decide
  have read := (Wire.ofText_exact.2.2.1 _ _).mpr ⟨document, denotes, within, document_written⟩
  have ordered : (Wire.m fields).Ordered := document_written.ordered
  have inItem : fields.Ordered := by
    cases ordered with
    | leaf flat => cases flat
    | map sorted each => exact ⟨sorted, each⟩
  refine ⟨denotes, within, read, ordered, ?_, inItem, ?_⟩
  · exact (Wire.ofText_exact.1 (.m fields) (by decide)).2 ordered
  · exact (Wire.ofText_exact.2.1 fields (by decide)).2 inItem

end Postcard

end ItemSchema
