import ItemSchema.Proofs.Json.Reading
import ItemSchema.Proofs.Text.Base64
import ItemSchema.Proofs.Wire.Order
import ItemSchema.Wire.Printer
import ItemSchema.Wire.Reader

/-! The JSON documents of wire values. Reading accepts the objects whose only key is a tag with a
content of its type, at every level, and nothing else. -/
namespace ItemSchema

/-- The documents of a value. A null has two, and in a map the members stand in any order, the last
one of a name being the one that counts. -/
inductive Wire.Written : Json → Wire → Prop where
  | string (text : String) : Wire.Written (Wire.tagged .s (.string text)) (.s text)
  | number (number : String) : Wire.Written (Wire.tagged .n (.string number)) (.n number)
  | binary (bytes : List UInt8) :
    Wire.Written (Wire.tagged .b (.string (Text.Base64.encode bytes))) (.b bytes)
  | bool (flag : Bool) : Wire.Written (Wire.tagged .bool (.bool flag)) (.bool flag)
  | null (flag : Bool) : Wire.Written (Wire.tagged .null (.bool flag)) .null
  | map (members : List (String × Json × Wire))
    (each : ∀ member ∈ members, Wire.Written member.2.1 member.2.2) :
    Wire.Written
      (Wire.tagged .m (.object (members.map fun member => (member.1, member.2.1)) none))
      (.m (Record.ofList (members.map fun member => (member.1, member.2.2))))
  | list (items : List (Json × Wire)) (each : ∀ item ∈ items, Wire.Written item.1 item.2) :
    Wire.Written (Wire.tagged .l (.array (items.map Prod.fst))) (.l (items.map Prod.snd))
  | strings (texts : List String) :
    Wire.Written (Wire.tagged .ss (.array (texts.map .string))) (.ss texts)
  | numbers (numbers : List String) :
    Wire.Written (Wire.tagged .ns (.array (numbers.map .string))) (.ns numbers)
  | binaries (binaries : List (List UInt8)) :
    Wire.Written (Wire.tagged .bs (.array (binaries.map fun b => .string (Text.Base64.encode b))))
      (.bs binaries)

theorem WireTag.ofName?_eq_some_iff {tag : WireTag} :
    WireTag.ofName? text = some tag ↔ text = tag.name := by
  constructor
  · intro found
    have same := List.find?_some found
    exact (of_decide_eq_true same).symm
  · rintro rfl
    cases tag <;> rfl

namespace Wire

theorem readBytes_ok_iff {j : Json} {bytes : List UInt8} :
    readBytes j = .ok bytes ↔ j = .string (Text.Base64.encode bytes) := by
  rw [readBytes, bind_eq_ok]
  constructor
  · rintro ⟨text, read, decoded⟩
    split at decoded
    · rename_i found
      cases decoded
      rw [Json.readString_ok_iff.mp read, Text.Base64.decode?_eq_some_iff.mp found]
    · contradiction
  · rintro rfl
    refine ⟨_, rfl, ?_⟩
    rw [Text.Base64.decode?_eq_some_iff.mpr rfl]
    rfl

theorem readBinaries_ok_iff {j : Json} {binaries : List (List UInt8)} :
    readBinaries j = .ok binaries ↔
      j = .array (binaries.map fun b => .string (Text.Base64.encode b)) := by
  have texts : readBinaries j = .ok binaries ↔
      ∃ texts : List String, j = .array (texts.map .string) ∧
        texts = binaries.map Text.Base64.encode := by
    simp only [readBinaries, bind_eq_ok, Json.readStrings_ok_iff]
    refine exists_congr fun texts => and_congr_right fun _ => ?_
    apply mapM_eq_ok_iff
    intro text bytes
    rw [← Text.Base64.decode?_eq_some_iff]
    cases Text.Base64.decode? text <;> simp
  rw [texts]
  constructor
  · rintro ⟨_, rfl, rfl⟩
    rw [List.map_map]
    rfl
  · rintro rfl
    refine ⟨_, ?_, rfl⟩
    rw [List.map_map]
    rfl

theorem ofItems_of_each {items : List (Json × Wire)}
    (each : ∀ item ∈ items, ofJson item.1 = .ok item.2) :
    ofItems (items.map Prod.fst) = .ok (items.map Prod.snd) := by
  induction items with
  | nil => rfl
  | cons item rest ih =>
    obtain ⟨here, later⟩ := List.forall_mem_cons.mp each
    simp only [List.map_cons, ofItems, bind_eq_ok]
    exact ⟨_, here, _, ih later, rfl⟩

theorem ofMembers_of_each {members : List (String × Json × Wire)}
    (each : ∀ member ∈ members, ofJson member.2.1 = .ok member.2.2) :
    ofMembers (members.map fun member => (member.1, member.2.1)) =
      .ok (members.map fun member => (member.1, member.2.2)) := by
  induction members with
  | nil => rfl
  | cons member rest ih =>
    obtain ⟨here, later⟩ := List.forall_mem_cons.mp each
    simp only [List.map_cons, ofMembers, bind_eq_ok]
    exact ⟨_, here, _, ih later, rfl⟩

theorem ofJson_tagged {tag : WireTag} {content : Json} {w : Wire}
    (read : ofContent tag content = .ok w) : ofJson (tagged tag content) = .ok w := by
  rw [tagged, ofJson, WireTag.ofName?_eq_some_iff.mpr rfl]
  simp only [bind_eq_ok]
  exact ⟨w, read, rfl⟩

theorem Written.ofJson_eq {j : Json} {w : Wire} (written : Written j w) : ofJson j = .ok w := by
  induction written with
  | string | number | bool | null => rfl
  | binary bytes =>
    apply ofJson_tagged
    rw [ofContent, readBytes_ok_iff.mpr rfl]
    rfl
  | map members _ ih =>
    apply ofJson_tagged
    simp only [ofContent, bind_eq_ok]
    exact ⟨_, ofMembers_of_each ih, _, rfl, rfl⟩
  | list items _ ih =>
    apply ofJson_tagged
    simp only [ofContent, ofItems_of_each ih]
    rfl
  | strings texts =>
    apply ofJson_tagged
    rw [ofContent, Json.readStrings_ok_iff.mpr rfl]
    rfl
  | numbers texts =>
    apply ofJson_tagged
    rw [ofContent, Json.readStrings_ok_iff.mpr rfl]
    rfl
  | binaries bytes =>
    apply ofJson_tagged
    rw [ofContent, readBinaries_ok_iff.mpr rfl]
    rfl

theorem written_of_leaf {tag : WireTag} {content : Json} {w : Wire}
    (leaf : tag ≠ .m ∧ tag ≠ .l) (read : ofContent tag content = .ok w) :
    Written (tagged tag content) w := by
  cases tag with
  | m | l => simp at leaf
  | _ =>
    simp only [ofContent, map_eq_ok, Json.readString_ok_iff, Json.readBool_ok_iff,
      Json.readStrings_ok_iff, readBytes_ok_iff, readBinaries_ok_iff] at read
    obtain ⟨_, rfl, rfl⟩ := read
    constructor

mutual

theorem written_of_ofJson : ∀ {j : Json} {w : Wire}, ofJson j = .ok w → Written j w
  | .object [] fault, w, read => by
    rw [ofJson, bind_eq_ok] at read
    obtain ⟨_, _, impossible⟩ := read
    contradiction
  | .object ((key, content) :: rest) fault, w, read => by
    rw [ofJson] at read
    split at read
    · contradiction
    · rename_i tag named
      obtain rfl := WireTag.ofName?_eq_some_iff.mp named
      rw [bind_eq_ok] at read
      obtain ⟨value, inner, read⟩ := read
      cases rest with
      | cons => cases read
      | nil =>
        cases fault with
        | some => cases read
        | none =>
          cases read
          exact written_of_ofContent inner

theorem written_of_ofContent : ∀ {tag : WireTag} {content : Json} {w : Wire},
    ofContent tag content = .ok w → Written (tagged tag content) w
  | .m, .object members fault, w, read => by
    simp only [ofContent, bind_eq_ok, Json.noFault_ok_iff] at read
    obtain ⟨fields, inner, _, rfl, made⟩ := read
    cases made
    obtain ⟨rows, each, rfl, rfl⟩ := written_of_ofMembers inner
    exact .map rows each
  | .l, .array items, w, read => by
    simp only [ofContent, map_eq_ok] at read
    obtain ⟨values, inner, rfl⟩ := read
    obtain ⟨rows, each, rfl, rfl⟩ := written_of_ofItems inner
    exact .list rows each
  | .s, _, _, read | .n, _, _, read | .b, _, _, read | .bool, _, _, read | .null, _, _, read
  | .ss, _, _, read | .ns, _, _, read | .bs, _, _, read => written_of_leaf (by decide) read

theorem written_of_ofItems : ∀ {items : List Json} {values : List Wire},
    ofItems items = .ok values → ∃ rows : List (Json × Wire),
      (∀ row ∈ rows, Written row.1 row.2) ∧ items = rows.map Prod.fst ∧ values = rows.map Prod.snd
  | [], values, read => by
    cases read
    exact ⟨[], by simp, rfl, rfl⟩
  | item :: rest, values, read => by
    simp only [ofItems, bind_eq_ok] at read
    obtain ⟨value, here, later, inner, made⟩ := read
    cases made
    obtain ⟨rows, each, rfl, rfl⟩ := written_of_ofItems inner
    exact ⟨(item, value) :: rows, List.forall_mem_cons.mpr ⟨written_of_ofJson here, each⟩, rfl, rfl⟩

theorem written_of_ofMembers : ∀ {members : List (String × Json)} {fields : List (String × Wire)},
    ofMembers members = .ok fields → ∃ rows : List (String × Json × Wire),
      (∀ row ∈ rows, Written row.2.1 row.2.2) ∧
        members = (rows.map fun row => (row.1, row.2.1)) ∧
        fields = rows.map fun row => (row.1, row.2.2)
  | [], fields, read => by
    cases read
    exact ⟨[], by simp, rfl, rfl⟩
  | (name, j) :: rest, fields, read => by
    simp only [ofMembers, bind_eq_ok] at read
    obtain ⟨value, here, later, inner, made⟩ := read
    cases made
    obtain ⟨rows, each, rfl, rfl⟩ := written_of_ofMembers inner
    exact ⟨(name, j, value) :: rows, List.forall_mem_cons.mpr ⟨written_of_ofJson here, each⟩, rfl,
      rfl⟩

end

/-- What reading accepts, and what it makes of it. -/
theorem ofJson_ok_iff {j : Json} {w : Wire} : ofJson j = .ok w ↔ Written j w :=
  ⟨written_of_ofJson, Written.ofJson_eq⟩

theorem itemsToJson_eq_map (items : List Wire) : itemsToJson items = items.map toJson := by
  induction items with
  | nil => rfl
  | cons item rest ih => rw [itemsToJson, ih, List.map_cons]

theorem fieldsToJson_eq_map (fields : List (String × Wire)) :
    fieldsToJson fields = fields.map fun field => (field.1, field.2.toJson) := by
  induction fields with
  | nil => rfl
  | cons field rest ih => rw [fieldsToJson, ih, List.map_cons]

theorem textual_tagged {tag : WireTag} {content : Json} (textual : content.Textual) :
    (tagged tag content).Textual :=
  .object (List.forall_mem_singleton.mpr textual)

@[simp] theorem depth_tagged (tag : WireTag) (content : Json) :
    (tagged tag content).depth = content.depth + 1 := by
  simp [tagged, Json.depth, Json.membersDepth]

theorem Written.textual {j : Json} {w : Wire} (written : Written j w) : j.Textual := by
  induction written with
  | string | number | binary => exact textual_tagged (.string _)
  | bool flag | null flag => exact textual_tagged (.bool flag)
  | map members _ ih =>
    apply textual_tagged
    apply Json.Textual.object
    rw [List.forall_mem_map]
    exact ih
  | list items _ ih =>
    apply textual_tagged
    apply Json.Textual.array
    rw [List.forall_mem_map]
    exact ih
  | strings texts | numbers texts => exact textual_tagged (.strings texts)
  | binaries binaries =>
    have texts := Json.Textual.strings (binaries.map Text.Base64.encode)
    rw [List.map_map] at texts
    exact textual_tagged texts

/-- The reading of a value nests no deeper than the text it was read from. -/
theorem Written.depth_le {j : Json} {w : Wire} (written : Written j w) :
    w.toJson.depth ≤ j.depth := by
  induction written with
  | string | number | binary | bool | null | strings | numbers | binaries => exact Nat.le_refl _
  | map members _ ih =>
    rw [toJson, depth_tagged, depth_tagged]
    apply Nat.succ_le_succ
    apply Nat.succ_le_succ
    rw [Json.membersDepth_le_iff, fieldsToJson_eq_map, List.forall_mem_map]
    intro field kept
    obtain ⟨member, inside, rfl⟩ := List.mem_map.mp (Record.mem_ofList kept)
    refine Nat.le_trans (ih member inside) ?_
    apply Json.depth_le_membersDepth
    exact List.mem_map_of_mem inside
  | list items _ ih =>
    rw [toJson, depth_tagged, depth_tagged]
    apply Nat.succ_le_succ
    apply Nat.succ_le_succ
    rw [Json.itemsDepth_le_iff, itemsToJson_eq_map, List.forall_mem_map, List.forall_mem_map]
    intro item inside
    refine Nat.le_trans (ih item inside) ?_
    apply Json.depth_le_itemsDepth
    exact List.mem_map_of_mem inside

theorem Written.ordered {j : Json} {w : Wire} (written : Written j w) : w.Ordered := by
  induction written with
  | map members _ ih =>
    refine .map (Record.ofList_sorted _) ?_
    intro field kept
    obtain ⟨member, inside, rfl⟩ := List.mem_map.mp (Record.mem_ofList kept)
    exact ih member inside
  | list items _ ih =>
    refine .list ?_
    rw [List.forall_mem_map]
    exact ih
  | _ => exact .leaf rfl

end Wire

end ItemSchema
