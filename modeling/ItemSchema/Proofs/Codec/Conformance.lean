import ItemSchema.Proofs.Codec.Locality

/-! The values that fit an attribute. They are told from the others without any mention of encoding;
encoding accepts exactly these, and what it makes of them has the tags of their attributes. -/
namespace ItemSchema

/-- The values of a scalar type. A date is on a whole millisecond and may be given as a text. -/
inductive ScalarType.Admits : ScalarType → Value → Prop where
  | string (s : String) : Admits .string (.string s)
  | number (d : Decimal) : Admits .number (.number d)
  | bigint (n : Int128) : Admits .bigint (.bigint n)
  | boolean (b : Bool) : Admits .boolean (.bool b)
  | date (millis : t.isWholeMillis = true) : Admits .date (.date t)
  | timestamp (read : Instant.ofText? s = some t) (millis : t.isWholeMillis = true) :
    Admits .date (.string s)

/-- The members that a set can have. -/
inductive SetType.Admits : SetType → Value → Prop where
  | string (s : String) : Admits .string (.string s)
  | number (d : Decimal) : Admits .number (.number d)
  | binary (bytes : List UInt8) : Admits .binary (.binary bytes)

/-- The values that fit an attribute. -/
inductive Attribute.Admits : Attribute → Value → Prop where
  | null (notKey : a.isKey = false) : Admits a .null
  | scalar (typed : a.kind.scalarType? = some of) (content : of.Admits v) : Admits a v
  | set {members : List Value} (given : v = .set members ∨ v = .list members)
    (nonempty : members ≠ []) (each : ∀ u ∈ members, of.Admits u) : Admits (.set of) v
  | list (each : ∀ u ∈ items, Admits item u) : Admits (.list (some item)) (.list items)
  | map {schema : Schema} (known : ∀ field ∈ fields, (schema.get? field.1).isSome = true)
    (each : ∀ name a u, schema.get? name = some a → (name, u) ∈ fields → Admits a u) :
    Admits (.map schema) (.map fields)

def ScalarType.tag : ScalarType → WireTag
  | .string | .date => .s
  | .number | .bigint => .n
  | .boolean => .bool

def SetType.tag : SetType → WireTag
  | .string => .ss
  | .number => .ns
  | .binary => .bs

/-- The tag of what is stored for an attribute, unless that is null. -/
def Attribute.tag : Attribute → WireTag
  | .partitionKey of | .sortKey of => of.scalarType.tag
  | .scalar of => of.tag
  | .set of => of.tag
  | .list _ => .l
  | .map _ => .m

/-- Whether the attribute says something about what is in the wire value. -/
def Attribute.opens : Attribute → Wire → Bool
  | .list (some _), .l _ | .map _, .m _ => true
  | _, _ => false

namespace Attribute

theorem admits_null_iff {a : Attribute} : a.Admits .null ↔ a.isKey = false := by
  constructor
  · intro admits
    cases admits with
    | null notKey => exact notKey
    | scalar typed content => cases content
    | set given nonempty each => simp at given
  · exact .null

theorem admits_scalar_iff {a : Attribute} (typed : a.kind.scalarType? = some of)
    (notNull : v ≠ .null) : a.Admits v ↔ of.Admits v := by
  constructor
  · intro admits
    cases admits with
    | null notKey => contradiction
    | scalar typed' content =>
      cases typed.symm.trans typed'
      exact content
    | set | list | map => contradiction
  · exact .scalar typed

theorem admits_set_iff {members : List Value} :
    (Attribute.set of).Admits (.set members) ↔ members ≠ [] ∧ ∀ u ∈ members, of.Admits u := by
  constructor
  · intro admits
    cases admits with
    | scalar typed content => contradiction
    | set given nonempty each =>
      cases given with
      | inl same =>
        cases same
        exact ⟨nonempty, each⟩
      | inr same => contradiction
  · rintro ⟨nonempty, each⟩
    exact .set (.inl rfl) nonempty each

theorem admits_list_iff {item : Attribute} :
    (Attribute.list (some item)).Admits (.list items) ↔ ∀ u ∈ items, item.Admits u := by
  constructor
  · intro admits
    cases admits with
    | scalar typed content => contradiction
    | list each => exact each
  · exact .list

theorem admits_map_iff {schema : Schema} : (Attribute.map schema).Admits (.map fields) ↔
    ∀ field ∈ fields, ∃ a, schema.get? field.1 = some a ∧ a.Admits field.2 := by
  constructor
  · intro admits field member
    cases admits with
    | scalar typed content => contradiction
    | map known each =>
      obtain ⟨a, found⟩ := Option.isSome_iff_exists.mp (known field member)
      exact ⟨a, found, each field.1 a field.2 found member⟩
  · intro each
    refine .map (fun field member => ?_) fun name a u found member => ?_
    · obtain ⟨a, found, _⟩ := each field member
      rw [found]
      rfl
    · obtain ⟨b, same, admits⟩ := each (name, u) member
      cases found.symm.trans same
      exact admits

end Attribute

theorem Attribute.tag_of_scalarType {a : Attribute} (typed : a.kind.scalarType? = some of) :
    a.tag = of.tag := by
  cases a with
  | partitionKey key | sortKey key | scalar of =>
    cases typed
    rfl
  | _ => contradiction

theorem exists_encodeDate_ok_iff : (∃ w, encodeDate p t = .ok w) ↔ t.isWholeMillis = true := by
  unfold encodeDate
  split <;> simp_all

theorem exists_encodeScalar_ok_iff : (∃ w, encodeScalar p of v = .ok w) ↔ of.Admits v := by
  constructor
  · rintro ⟨w, encoded⟩
    cases of with
    | date =>
      cases v with
      | date t => exact .date (exists_encodeDate_ok_iff.mp ⟨w, encoded⟩)
      | string s =>
        cases read : Instant.ofText? s with
        | none => simp [encodeScalar, read] at encoded
        | some t =>
          simp only [encodeScalar, read] at encoded
          exact .timestamp read (exists_encodeDate_ok_iff.mp ⟨w, encoded⟩)
      | _ => simp [encodeScalar, mismatch] at encoded
    | _ =>
      cases v <;> simp [encodeScalar, mismatch] at encoded
      constructor
  · intro admits
    cases admits with
    | date millis => exact exists_encodeDate_ok_iff.mpr millis
    | timestamp read millis =>
      simp only [encodeScalar, read]
      exact exists_encodeDate_ok_iff.mpr millis
    | _ => exact ⟨_, rfl⟩

theorem encodeScalar_tag (encoded : encodeScalar p of v = .ok w) : w.tag = of.tag := by
  have date : ∀ t, encodeDate p t = .ok w → w.tag = .s := by
    intro t encoded
    unfold encodeDate at encoded
    split at encoded
    · cases encoded
      rfl
    · contradiction
  unfold encodeScalar at encoded
  split at encoded
  case h_5 t => exact date t encoded
  case h_6 =>
    split at encoded
    · exact date _ encoded
    · contradiction
  case h_7 => contradiction
  all_goals
    cases encoded
    rfl

theorem exists_encodeMembers_ok_iff :
    (∃ w, encodeMembers p of members = .ok w) ↔ ∀ u ∈ members, of.Admits u := by
  have reads : ∀ u, of.Admits u ↔ match of with
      | .string => ∃ s, stringMember p u = .ok s
      | .number => ∃ d, numberMember p u = .ok d
      | .binary => ∃ bytes, binaryMember p u = .ok bytes := by
    intro u
    cases of with
    | string | number | binary =>
      simp only [stringMember_ok_iff, numberMember_ok_iff, binaryMember_ok_iff]
      constructor
      · rintro ⟨⟩
        exact ⟨_, rfl⟩
      · rintro ⟨_, rfl⟩
        constructor
  cases of with
  | string | number | binary =>
    simp only [reads, ← exists_mapM_ok_iff, encodeMembers, bind_eq_ok, except_pure,
      Except.ok.injEq]
    constructor
    · rintro ⟨_, xs, read, _⟩
      exact ⟨xs, read⟩
    · rintro ⟨xs, read⟩
      exact ⟨_, xs, read, rfl⟩

theorem exists_encodeSet_ok_iff : (∃ w, encodeSet p of v = .ok w) ↔
    ∃ members, (v = .set members ∨ v = .list members) ∧ members ≠ [] ∧
      ∀ u ∈ members, of.Admits u := by
  simp only [encodeSet_ok_iff, ← exists_encodeMembers_ok_iff (p := p)]
  constructor
  · rintro ⟨w, members, given, nonempty, encoded⟩
    exact ⟨members, given, nonempty, w, encoded⟩
  · rintro ⟨members, given, nonempty, w, encoded⟩
    exact ⟨w, members, given, nonempty, encoded⟩

theorem encodeSet_tag (encoded : encodeSet p of v = .ok w) : w.tag = of.tag := by
  obtain ⟨members, _, _, encoded⟩ := encodeSet_ok_iff.mp encoded
  rw [encodeMembers_ok_iff] at encoded
  cases of with
  | string | number | binary =>
    obtain ⟨_, _, rfl⟩ := encoded
    rfl

theorem exists_encodeItems_ok_iff : (∃ ws, encodeItems p item index items = .ok ws) ↔
    ∀ v ∈ items, ∃ w, encodeAt p item v = .ok w := by
  induction items generalizing index with
  | nil => simp [encodeItems]
  | cons v rest ih =>
    simp only [encodeItems, bind_eq_ok, except_pure, Except.ok.injEq, List.forall_mem_cons,
      ← @ih (index + 1)]
    constructor
    · rintro ⟨_, w, first, ws, others, rfl⟩
      exact ⟨⟨w, encodeAt_anywhere first p⟩, ws, others⟩
    · rintro ⟨⟨w, first⟩, ws, others⟩
      exact ⟨_, w, encodeAt_anywhere first _, ws, others, rfl⟩

theorem exists_encodeFields_ok_iff {schema : Schema} :
    (∃ entries, encodeFields p schema fields = .ok entries) ↔
      ∀ field ∈ fields, ∃ a, schema.get? field.1 = some a ∧ ∃ w, encodeAt p a field.2 = .ok w := by
  induction fields with
  | nil => simp [encodeFields]
  | cons field rest ih =>
    obtain ⟨name, v⟩ := field
    rw [List.forall_mem_cons, ← ih, encodeFields]
    cases found : schema.get? name with
    | none => simp
    | some a =>
      simp only [bind_eq_ok, except_pure, Except.ok.injEq, Option.some.injEq, exists_eq_left']
      constructor
      · rintro ⟨_, w, first, ws, others, rfl⟩
        exact ⟨⟨w, encodeAt_anywhere first p⟩, ws, others⟩
      · rintro ⟨⟨w, first⟩, ws, others⟩
        exact ⟨_, w, encodeAt_anywhere first _, ws, others, rfl⟩

theorem Attribute.Admits.encodes {a : Attribute} (admits : a.Admits v) (p : Path) :
    ∃ w, encodeAt p a v = .ok w := by
  induction admits with
  | null notKey => exact ⟨_, (EncodesTo.null notKey).encodeAt_eq⟩
  | scalar typed content =>
    obtain ⟨w, encoded⟩ := exists_encodeScalar_ok_iff.mpr content
    exact ⟨w, (EncodesTo.scalar typed encoded).encodeAt_eq⟩
  | set given nonempty each =>
    obtain ⟨w, encoded⟩ := exists_encodeSet_ok_iff.mpr ⟨_, given, nonempty, each⟩
    exact ⟨w, (EncodesTo.set encoded).encodeAt_eq⟩
  | list each ih =>
    obtain ⟨ws, encoded⟩ := exists_encodeItems_ok_iff.mpr ih
    exact ⟨_, (EncodesTo.list encoded).encodeAt_eq⟩
  | map known each ih =>
    have fields := exists_encodeFields_ok_iff.mpr fun field member => by
      obtain ⟨a, found⟩ := Option.isSome_iff_exists.mp (known field member)
      exact ⟨a, found, ih field.1 a field.2 found member⟩
    obtain ⟨entries, encoded⟩ := fields
    exact ⟨_, (EncodesTo.map encoded).encodeAt_eq⟩

theorem Attribute.admits_of_encodes {a : Attribute} (encoded : encodeAt p a v = .ok w) :
    a.Admits v := by
  induction v using Value.contents_induction generalizing a w with
  | step v ih =>
    cases encodesTo_of_ok encoded with
    | null notKey => exact .null notKey
    | list items =>
      refine .list fun u member => ?_
      obtain ⟨w, encoded⟩ := exists_encodeItems_ok_iff.mp ⟨_, items⟩ u member
      exact ih u member encoded
    | map entries =>
      refine .map (encodeFields_known entries) fun name a u found member => ?_
      obtain ⟨b, same, w, encoded⟩ := exists_encodeFields_ok_iff.mp ⟨_, entries⟩ _ member
      cases found.symm.trans same
      exact ih u (Value.mem_contents_map member) encoded
    | scalar typed content => exact .scalar typed (exists_encodeScalar_ok_iff.mp ⟨w, content⟩)
    | set members =>
      obtain ⟨elements, given, nonempty, each⟩ := exists_encodeSet_ok_iff.mp ⟨w, members⟩
      exact .set given nonempty each

theorem exists_encodeAt_ok_iff {a : Attribute} :
    (∃ w, encodeAt p a v = .ok w) ↔ a.Admits v :=
  ⟨fun ⟨_, encoded⟩ => a.admits_of_encodes encoded, fun admits => admits.encodes p⟩

theorem encodeFields_names (encoded : encodeFields p schema fields = .ok entries) :
    entries.map Prod.fst = fields.map Prod.fst := by
  induction fields generalizing entries with
  | nil =>
    cases encoded
    rfl
  | cons field rest ih =>
    obtain ⟨name, v⟩ := field
    rw [encodeFields] at encoded
    cases found : schema.get? name with
    | none => simp [found] at encoded
    | some a =>
      simp only [found, bind_eq_ok, except_pure, Except.ok.injEq] at encoded
      obtain ⟨w, _, others, later, rfl⟩ := encoded
      rw [List.map_cons, List.map_cons, ih later]

theorem EncodesTo.tag {a : Attribute} (encodes : EncodesTo p a v w) :
    w.tag = a.tag ∨ w.tag = .null ∧ a.isKey = false := by
  cases encodes with
  | null notKey => exact .inr ⟨rfl, notKey⟩
  | list | map => exact .inl rfl
  | scalar typed content =>
    rw [Attribute.tag_of_scalarType typed]
    exact .inl (encodeScalar_tag content)
  | set members => exact .inl (encodeSet_tag members)

theorem ScalarType.tag_flat (of : ScalarType) : of.tag ≠ .m ∧ of.tag ≠ .l := by
  cases of <;> decide

theorem SetType.tag_flat (of : SetType) : of.tag ≠ .m ∧ of.tag ≠ .l := by
  cases of <;> decide

/-- A map is stored with the fields that it has, and nothing else is stored with fields. -/
theorem EncodesTo.names {a : Attribute} (encodes : EncodesTo p a v w) :
    w.fields?.map (List.map Prod.fst) = v.fields?.map (List.map Prod.fst) := by
  have flat : w.tag ≠ .m → w.fields? = none := by
    cases w <;> simp [Wire.tag, Wire.fields?]
  cases encodes with
  | null | list => rfl
  | map entries => exact congrArg some (encodeFields_names entries)
  | scalar typed content =>
    have given : v.fields? = none := by
      cases exists_encodeScalar_ok_iff.mp ⟨w, content⟩ <;> rfl
    rw [given, flat (encodeScalar_tag content ▸ (ScalarType.tag_flat _).1)]
    rfl
  | set members =>
    have given : v.fields? = none := by
      obtain ⟨elements, rfl | rfl, _⟩ := encodeSet_ok_iff.mp members <;> rfl
    rw [given, flat (encodeSet_tag members ▸ (SetType.tag_flat _).1)]
    rfl

theorem encodeAt_map {a : Attribute} (encoded : encodeAt p a v = .ok (.m entries)) :
    ∃ schema fields, a = .map schema ∧ v = .map fields ∧
      encodeFields p schema fields = .ok entries := by
  cases encodesTo_of_ok encoded with
  | map fields => exact ⟨_, _, rfl, rfl, fields⟩
  | scalar _ content => exact absurd (encodeScalar_tag content).symm (ScalarType.tag_flat _).1
  | set members => exact absurd (encodeSet_tag members).symm (SetType.tag_flat _).1

theorem encodeAt_list {a : Attribute} (encoded : encodeAt p a v = .ok (.l ws)) :
    ∃ item items, a = .list (some item) ∧ v = .list items ∧
      encodeItems p item 0 items = .ok ws := by
  cases encodesTo_of_ok encoded with
  | list items => exact ⟨_, _, rfl, rfl, items⟩
  | scalar _ content => exact absurd (encodeScalar_tag content).symm (ScalarType.tag_flat _).2
  | set members => exact absurd (encodeSet_tag members).symm (SetType.tag_flat _).2

theorem encodeItems_getElem? {items : List Value} {ws : List Wire} {n : Nat}
    (encoded : encodeItems p item index items = .ok ws) (stored : ws[n]? = some w) :
    ∃ v q, items[n]? = some v ∧ encodeAt q item v = .ok w := by
  induction items generalizing index n ws with
  | nil =>
    cases encoded
    simp at stored
  | cons u rest ih =>
    simp only [encodeItems, bind_eq_ok, except_pure, Except.ok.injEq] at encoded
    obtain ⟨x, first, others, following, rfl⟩ := encoded
    cases n with
    | zero =>
      cases stored
      exact ⟨u, _, rfl, first⟩
    | succ n => exact ih following stored

/-- Whatever is stored at a path is what became of the value there. -/
theorem encodeAt_stored {a : Attribute} (encoded : encodeAt q a v = .ok w)
    (stored : w.at? p = some x) (whole done : Path) :
    ∃ b u, a.follow whole done p = .ok b ∧ v.at? p = some u ∧ encodeAt p b u = .ok x := by
  suffices ∃ b u, a.follow whole done p = .ok b ∧ v.at? p = some u ∧ ∃ r, encodeAt r b u = .ok x by
    obtain ⟨b, u, followed, held, r, alone⟩ := this
    exact ⟨b, u, followed, held, encodeAt_anywhere alone p⟩
  induction p generalizing a v w q done with
  | nil =>
    cases stored
    exact ⟨a, v, rfl, rfl, q, encoded⟩
  | cons segment rest ih =>
    cases w with
    | m entries =>
      obtain ⟨schema, fields, rfl, rfl, content⟩ := encodeAt_map encoded
      cases segment with
      | field name =>
        obtain ⟨x, present, inside⟩ := Option.bind_eq_some_iff.mp stored
        have look := find?_encodeFields content name
        cases given : Record.find? name fields with
        | none =>
          simp only [given, present] at look
          contradiction
        | some u =>
          simp only [given] at look
          obtain ⟨b, w, found, here, same⟩ := look
          cases present.symm.trans same
          obtain ⟨c, u', followed, held, alone⟩ := ih here inside (done ++ [.field name])
          refine ⟨c, u', ?_, ?_, alone⟩
          · exact Attribute.follow_cons_ok_iff.mpr ⟨b, .field found, followed⟩
          · rw [Value.at?, given, Option.bind_some, held]
      | index n => contradiction
    | l ws =>
      obtain ⟨item, items, rfl, rfl, content⟩ := encodeAt_list encoded
      cases segment with
      | field name => contradiction
      | index n =>
        obtain ⟨x, present, inside⟩ := Option.bind_eq_some_iff.mp stored
        obtain ⟨u, r, given, here⟩ := encodeItems_getElem? content present
        obtain ⟨c, u', followed, held, alone⟩ := ih here inside (done ++ [.index n])
        refine ⟨c, u', ?_, ?_, alone⟩
        · exact Attribute.follow_cons_ok_iff.mpr ⟨item, .index item n, followed⟩
        · rw [Value.at?, given, Option.bind_some, held]
    | _ => cases segment <;> contradiction

/-- The items that can be stored are the maps whose fields all fit their attributes. A stored item
has the fields of its value in every map, and each node below the top has the tag of its attribute
or is null; keys are not null. -/
theorem Schema.encodeItem_admits (schema : Schema) (v : Value) :
    ((∃ item, schema.encodeItem v = .ok item) ↔
        ∃ fields, v = .map fields ∧
          ∀ field ∈ fields, ∃ a, schema.get? field.1 = some a ∧ a.Admits field.2) ∧
      ∀ item, schema.encodeItem v = .ok item → ∀ p x, (Wire.m item).at? p = some x →
        ∃ u, v.at? p = some u ∧
          x.fields?.map (List.map Prod.fst) = u.fields?.map (List.map Prod.fst) ∧
          (p ≠ [] → ∃ a, schema.resolve p = .ok a ∧
            (x.tag = a.tag ∨ x.tag = .null ∧ a.isKey = false)) := by
  constructor
  · cases v with
    | map fields =>
      simp only [encodeItem, exists_encodeFields_ok_iff, exists_encodeAt_ok_iff, Value.map.injEq,
        exists_eq_left']
    | _ => simp [encodeItem, mismatch]
  · intro item encoded p x stored
    obtain ⟨a, u, followed, held, alone⟩ :=
      encodeAt_stored (encodeAt_of_encodeItem encoded) stored p []
    have encodes := encodesTo_of_ok alone
    refine ⟨u, held, encodes.names, ?_⟩
    intro inside
    refine ⟨a, ?_, encodes.tag⟩
    cases p with
    | nil => contradiction
    | cons segment rest => exact followed

namespace Ticket

def schema : Schema :=
  [("id", .partitionKey .string),
    ("stops", .list (some (.map [("at", .scalar .date), ("gate", .scalar .string)])))]

/-- A stop at a timestamp and without a gate. -/
def sold : Value :=
  .ofFields [("id", .string "x"),
    ("stops", .list [.ofFields [("at", .string "2024-01-31T08:15:00Z"), ("gate", .null)]])]

def gate : Path :=
  [.field "stops", .index 0, .field "gate"]

theorem sold_admits :
    (∃ fields, sold = .map fields ∧
        ∀ field ∈ fields, ∃ a, schema.get? field.1 = some a ∧ a.Admits field.2) ∧
      ∃ item a, schema.encodeItem sold = .ok item ∧ (Wire.m item).at? gate = some .null ∧
        schema.resolve gate = .ok a ∧ a.isKey = false := by
  obtain ⟨accepts, tagged⟩ := schema.encodeItem_admits sold
  obtain ⟨item, encoded⟩ : ∃ item, schema.encodeItem sold = .ok item := ⟨_, rfl⟩
  refine ⟨accepts.mp ⟨item, encoded⟩, item, ?_⟩
  have stored : (Wire.m item).at? gate = some .null := by
    cases encoded
    rfl
  obtain ⟨_, _, _, below⟩ := tagged item encoded gate .null stored
  obtain ⟨a, resolved, other | ⟨_, notKey⟩⟩ := below (List.cons_ne_nil _ _)
  · cases resolved
    contradiction
  · exact ⟨a, encoded, stored, resolved, notKey⟩

end Ticket

end ItemSchema
