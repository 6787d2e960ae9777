import ItemSchema.Proofs.Codec.Failure
import ItemSchema.Proofs.Codec.Rereading
import ItemSchema.Proofs.Wire.Order

/-! Where encoding and decoding fail. An error names the path of the first node that fails, in the
order in which the fields of values and the attributes of schemas are gone through. -/
namespace ItemSchema

/-- Where an error says that something is wrong. -/
def Error.location? : Error → Option Location
  | .typeMismatch location _ _ | .unknownField location _ | .invalidOperand location _ =>
    some location
  | .pathNotFound p | .invalidSegment p _ | .illegalOperator p _ _ | .missingItemSchema p
  | .tagMismatch p _ _ | .numberOutOfRange p _ => some (.path p)
  | .invalidPath _ | .unknownOperator _ | .invalidSchema _ | .invalidConfig _ | .json _
  | .store _ => none

theorem EncodeFault.location? (fault : EncodeFault p e) : e.location? = some (.path p) := by
  cases fault <;> rfl

theorem DecodeFault.location? (fault : DecodeFault p expected w e) :
    e.location? = some (.path p) := by
  cases fault <;> rfl

/-- All maps of the value are records. -/
inductive Value.Ordered : Value → Prop where
  | intro (sorted : ∀ fields, v.fields? = some fields → Record.Sorted fields)
    (each : ∀ u ∈ v.contents, Ordered u) : Ordered v

theorem Value.Ordered.flat {v : Value} (noFields : v.fields? = none) (empty : v.contents = []) :
    v.Ordered :=
  .intro (by simp [noFields]) (by simp [empty])

theorem Value.Ordered.list (each : ∀ v ∈ items, v.Ordered) : (Value.list items).Ordered :=
  .intro (by simp [fields?]) each

theorem Value.ofFields_ordered (each : ∀ field ∈ fields, field.2.Ordered) :
    (Value.ofFields fields).Ordered := by
  refine .intro ?_ ?_
  · rintro _ ⟨⟩
    exact Record.ofList_sorted fields
  · intro v member
    obtain ⟨field, inRecord, rfl⟩ := List.mem_map.mp member
    exact each field (Record.mem_ofList inRecord)

/-- Fields are gone through in the order of their names, items in that of their indexes. -/
inductive Segment.Before : Segment String → Segment String → Prop where
  | field (less : m < n) : Before (.field m) (.field n)
  | index (less : m < n) : Before (.index m) (.index n)

/-- The places beside the way to another place that come before it. -/
inductive Path.Before : Path → Path → Prop where
  | here (before : s.Before t) (p : Path) : Before [s] (t :: p)
  | inside (s : Segment String) (before : Before r p) : Before (s :: r) (s :: p)

/-- The places beside the way to another place whose attributes come before it in the schema. -/
inductive Attribute.Before : Attribute → Path → Path → Prop where
  | field {fields : Schema}
    (less : (fields.map Prod.fst).idxOf name < (fields.map Prod.fst).idxOf other) (p : Path) :
    Before (.map fields) [.field name] (.field other :: p)
  | index (less : m < n) (p : Path) : Before (.list (some item)) [.index m] (.index n :: p)
  | inside (down : a.Below s b) (before : Before b r p) : Before a (s :: r) (s :: p)

/-- Every value beside the way that comes earlier is encoded. -/
def EncodesBefore (q : Path) (a : Attribute) (v : Value) (p : Path) : Prop :=
  ∀ r, r.Before p → ∀ u, v.at? r = some u →
    ∃ b w, a.Leads r b ∧ encodeAt (q ++ r) b u = .ok w

/-- Where encoding fails below a value: at a value that does not fit by itself, or at a map with a
field that is unknown. -/
inductive EncodeFailure (q : Path) (a : Attribute) (v : Value) : Path → Error → Prop where
  | node (leads : a.Leads p b) (held : v.at? p = some u)
    (flat : ∀ schema fields, b = .map schema → u ≠ .map fields)
    (fault : EncodeFault (q ++ p) e) (alone : encodeAt (q ++ p) b u = .error e)
    (before : EncodesBefore q a v p) : EncodeFailure q a v p e
  | unknown {schema : Schema} (leads : a.Leads p (.map schema))
    (held : v.at? p = some (.map fields)) (given : name ∈ fields.map Prod.fst)
    (unknown : schema.get? name = none) (before : EncodesBefore q a v (p ++ [.field name])) :
    EncodeFailure q a v p (.unknownField (.path (q ++ p)) name)

namespace EncodesBefore

theorem root (q : Path) (a : Attribute) (v : Value) : EncodesBefore q a v [] := by
  intro r before
  cases before

theorem index {items : List Value} (found : items[n]? = some u)
    (earlier : ∀ m < n, ∀ x, items[m]? = some x →
      ∃ w, encodeAt (q ++ [.index m]) item x = .ok w)
    (inside : EncodesBefore (q ++ [.index n]) item u p) :
    EncodesBefore q (.list (some item)) (.list items) (.index n :: p) := by
  intro r before x held
  cases before with
  | here before =>
    cases before with
    | @index m _ less =>
      obtain ⟨y, present, same⟩ := Option.bind_eq_some_iff.mp held
      cases same
      obtain ⟨w, encoded⟩ := earlier m less _ present
      exact ⟨item, w, .index m (.here item), encoded⟩
  | inside _ before =>
    rw [Value.at?, found, Option.bind_some] at held
    obtain ⟨b, w, leads, encoded⟩ := inside _ before x held
    rw [List.append_assoc] at encoded
    exact ⟨b, w, .index n leads, encoded⟩

/-- Beside the way through a field there are the fields in front of it. -/
theorem field {schema : Schema} (sorted : Record.Sorted (front ++ (name, u) :: back))
    (earlier : ∀ field ∈ front, ∃ b w, schema.get? field.1 = some b ∧
      encodeAt (q ++ [.field field.1]) b field.2 = .ok w)
    (inside : p = [] ∨ ∃ a, schema.get? name = some a ∧
      EncodesBefore (q ++ [.field name]) a u p) :
    EncodesBefore q (.map schema) (.map (front ++ (name, u) :: back)) (.field name :: p) := by
  intro r before x held
  cases before with
  | here before =>
    cases before with
    | @field key _ less =>
      obtain ⟨y, present, same⟩ := Option.bind_eq_some_iff.mp held
      cases same
      obtain ⟨b, w, known, encoded⟩ := earlier _ (sorted.mem_front present less)
      exact ⟨b, w, .field (Record.mem_of_find? known) (.here b), encoded⟩
  | inside _ before =>
    rcases inside with rfl | ⟨a, known, inside⟩
    · cases before
    · have found := Record.find?_of_mem sorted.distinct List.mem_append_cons_self
      rw [Value.at?, found, Option.bind_some] at held
      obtain ⟨b, w, leads, encoded⟩ := inside _ before x held
      rw [List.append_assoc] at encoded
      exact ⟨b, w, .field (Record.mem_of_find? known) leads, encoded⟩

end EncodesBefore

namespace EncodeFailure

theorem root {a : Attribute} (flat : ∀ schema fields, a = .map schema → v ≠ .map fields)
    (fault : EncodeFault q e) (alone : encodeAt q a v = .error e) : EncodeFailure q a v [] e := by
  have here := List.append_nil q
  exact .node (.here a) rfl flat (here.symm ▸ fault) (here.symm ▸ alone) (.root q a v)

theorem index {items : List Value} (found : items[n]? = some u)
    (earlier : ∀ m < n, ∀ x, items[m]? = some x →
      ∃ w, encodeAt (q ++ [.index m]) item x = .ok w)
    (failure : EncodeFailure (q ++ [.index n]) item u p e) :
    EncodeFailure q (.list (some item)) (.list items) (.index n :: p) e := by
  have held : ∀ r, (Value.list items).at? (.index n :: r) = u.at? r := by
    intro r
    rw [Value.at?, found, Option.bind_some]
  cases failure with
  | node leads inside flat fault alone before =>
    rw [List.append_assoc] at fault alone
    exact .node (.index n leads) ((held p).trans inside) flat fault alone
      (before.index found earlier)
  | unknown leads inside given unknown before =>
    rw [List.append_assoc]
    exact .unknown (.index n leads) ((held p).trans inside) given unknown
      (before.index found earlier)

theorem field {schema : Schema} (known : schema.get? name = some a)
    (sorted : Record.Sorted (front ++ (name, u) :: back))
    (earlier : ∀ field ∈ front, ∃ b w, schema.get? field.1 = some b ∧
      encodeAt (q ++ [.field field.1]) b field.2 = .ok w)
    (failure : EncodeFailure (q ++ [.field name]) a u p e) :
    EncodeFailure q (.map schema) (.map (front ++ (name, u) :: back)) (.field name :: p) e := by
  have member := Record.mem_of_find? known
  have held : ∀ r, (Value.map (front ++ (name, u) :: back)).at? (.field name :: r) = u.at? r := by
    intro r
    have found := Record.find?_of_mem sorted.distinct List.mem_append_cons_self
    rw [Value.at?, found, Option.bind_some]
  cases failure with
  | node leads inside flat fault alone before =>
    rw [List.append_assoc] at fault alone
    exact .node (.field member leads) ((held p).trans inside) flat fault alone
      (.field sorted earlier (.inr ⟨a, known, before⟩))
  | unknown leads inside given unknown before =>
    rw [List.append_assoc]
    exact .unknown (.field member leads) ((held p).trans inside) given unknown
      (.field sorted earlier (.inr ⟨a, known, before⟩))

end EncodeFailure

theorem encodeAt_failure {a : Attribute} (sound : a.Sound) (ordered : v.Ordered)
    (failed : encodeAt q a v = .error e) : ∃ p, EncodeFailure q a v p e := by
  -- Each way down puts one segment in front of the way to the node that failed.
  induction v using Value.contents_induction generalizing a q with
  | step v ih =>
    obtain ⟨sorted, each⟩ := ordered
    cases encodeError_of_error failed with
    | node flat fault => exact ⟨[], .root flat fault failed⟩
    | bare => exact absurd sound Attribute.Sound.not_bare
    | item found fails before =>
      have member := List.mem_of_getElem? found
      obtain ⟨p, failure⟩ := ih _ member sound.item (each _ member) fails
      exact ⟨_, failure.index found before⟩
    | unknown unknown before =>
      have here : EncodesBefore q _ _ ([] ++ [.field _]) :=
        .field (sorted _ rfl) before (.inl rfl)
      have failure := EncodeFailure.unknown (.here _) rfl (by simp) unknown here
      rw [List.append_nil] at failure
      exact ⟨[], failure⟩
    | @field name a u _ front back schema known fails before =>
      have member : u ∈ (Value.map (front ++ (name, u) :: back)).contents :=
        Value.mem_contents_map List.mem_append_cons_self
      obtain ⟨p, failure⟩ := ih u member (sound.below (.field known)) (each u member) fails
      exact ⟨_, failure.field known (sorted _ rfl) before⟩

/-- Every place beside the way that comes earlier is decoded, whether or not something is there. -/
def DecodesBefore (d : Decoding) (q : Path) (a : Attribute) (w : Wire) (p : Path) : Prop :=
  ∀ r, a.Before r p → ∃ b v, a.Leads r b ∧ decodeAt d (q ++ r) b (w.at? r) = .ok v

/-- Where decoding fails below a wire value: at one that is itself at fault. -/
structure DecodeFailure (d : Decoding) (q : Path) (a : Attribute) (w : Wire) (e : Error) (p : Path)
    (b : Attribute) (x : Wire) : Prop where
  leads : a.Leads p b
  held : w.at? p = some x
  closed : b.opens x = false
  fault : DecodeFault (q ++ p) b.tag x e
  alone : decodeAt d (q ++ p) b (some x) = .error e
  before : DecodesBefore d q a w p

namespace DecodesBefore

theorem root (d : Decoding) (q : Path) (a : Attribute) (w : Wire) : DecodesBefore d q a w [] := by
  intro r before
  cases before

theorem index {items : List Wire} (found : items[n]? = some x)
    (earlier : ∀ m < n, ∀ y, items[m]? = some y →
      ∃ v, decodeAt d (q ++ [.index m]) item (some y) = .ok v)
    (inside : DecodesBefore d (q ++ [.index n]) item x p) :
    DecodesBefore d q (.list (some item)) (.l items) (.index n :: p) := by
  intro r before
  cases before with
  | @index m _ _ less =>
    obtain ⟨within, _⟩ := List.getElem?_eq_some_iff.mp found
    have present := List.getElem?_eq_getElem (Nat.lt_trans less within)
    obtain ⟨v, decoded⟩ := earlier m less _ present
    refine ⟨item, v, .index m (.here item), ?_⟩
    rw [Wire.at?, present]
    exact decoded
  | inside down before =>
    cases down
    obtain ⟨b, v, leads, decoded⟩ := inside _ before
    rw [List.append_assoc] at decoded
    refine ⟨b, v, .index n leads, ?_⟩
    rw [Wire.at?, found]
    exact decoded

/-- Beside the way through a field there are the fields in front of it. -/
theorem field {front back : Schema} (distinct : ((front ++ (name, a) :: back).map Prod.fst).Nodup)
    (found : Record.find? name entries = some x)
    (earlier : ∀ field ∈ front, ∃ v, decodeAt d (q ++ [.field field.1]) field.2
      (Record.find? field.1 entries) = .ok v)
    (inside : DecodesBefore d (q ++ [.field name]) a x p) :
    DecodesBefore d q (.map (front ++ (name, a) :: back)) (.m entries) (.field name :: p) := by
  intro r before
  cases before with
  | @field key _ _ less =>
    -- Names are unique, so one with a smaller position stands in front of the field.
    have inFront : key ∈ front.map Prod.fst := by
      by_contra missing
      rw [List.map_append, List.map_cons] at distinct less
      have fresh : name ∉ front.map Prod.fst := fun member =>
        (List.nodup_cons.mp (List.nodup_middle.mp distinct)).1 (List.mem_append_left _ member)
      rw [List.idxOf_append_of_notMem missing, List.idxOf_append_of_notMem fresh,
        List.idxOf_cons_self] at less
      omega
    obtain ⟨⟨_, b⟩, member, rfl⟩ := List.mem_map.mp inFront
    obtain ⟨v, decoded⟩ := earlier _ member
    refine ⟨b, v, .field (List.mem_append_left _ member) (.here b), ?_⟩
    simpa [Wire.at?] using decoded
  | inside down before =>
    cases down with
    | field known =>
      have here := Record.find?_of_mem distinct List.mem_append_cons_self
      cases here.symm.trans known
      obtain ⟨b, v, leads, decoded⟩ := inside _ before
      rw [List.append_assoc] at decoded
      refine ⟨b, v, .field List.mem_append_cons_self leads, ?_⟩
      rw [Wire.at?, found]
      exact decoded

end DecodesBefore

namespace DecodeFailure

theorem root {a : Attribute} (closed : a.opens w = false) (fault : DecodeFault q a.tag w e)
    (alone : decodeAt d q a (some w) = .error e) : DecodeFailure d q a w e [] a w := by
  have here := List.append_nil q
  exact ⟨.here a, rfl, closed, here.symm ▸ fault, here.symm ▸ alone, .root d q a w⟩

theorem index {items : List Wire} (found : items[n]? = some y)
    (earlier : ∀ m < n, ∀ y, items[m]? = some y →
      ∃ v, decodeAt d (q ++ [.index m]) item (some y) = .ok v)
    (failure : DecodeFailure d (q ++ [.index n]) item y e p b x) :
    DecodeFailure d q (.list (some item)) (.l items) e (.index n :: p) b x := by
  obtain ⟨leads, held, closed, fault, alone, before⟩ := failure
  rw [List.append_assoc] at fault alone
  refine ⟨.index n leads, ?_, closed, fault, alone, before.index found earlier⟩
  rw [Wire.at?, found]
  exact held

theorem field {front back : Schema} (distinct : ((front ++ (name, a) :: back).map Prod.fst).Nodup)
    (found : Record.find? name entries = some y)
    (earlier : ∀ field ∈ front, ∃ v, decodeAt d (q ++ [.field field.1]) field.2
      (Record.find? field.1 entries) = .ok v)
    (failure : DecodeFailure d (q ++ [.field name]) a y e p b x) :
    DecodeFailure d q (.map (front ++ (name, a) :: back)) (.m entries) e (.field name :: p)
      b x := by
  obtain ⟨leads, held, closed, fault, alone, before⟩ := failure
  rw [List.append_assoc] at fault alone
  refine ⟨.field List.mem_append_cons_self leads, ?_, closed, fault, alone,
    before.field distinct found earlier⟩
  rw [Wire.at?, found]
  exact held

end DecodeFailure

theorem decodeAt_failure {a : Attribute} (sound : a.Sound)
    (failed : decodeAt d q a (some w) = .error e) : ∃ p b x, DecodeFailure d q a w e p b x := by
  induction w using Wire.contents_induction generalizing a q with
  | leaf w flat =>
    cases decodeError_of_error failed with
    | node closed fault => exact ⟨[], a, w, .root closed fault failed⟩
    | bare | item | field => contradiction
  | map entries ih =>
    cases decodeError_of_error failed with
    | node closed fault => exact ⟨[], a, _, .root closed fault failed⟩
    | field fails before =>
      obtain ⟨y, found, _⟩ := decodeAt_error_present fails
      rw [found] at fails
      obtain ⟨p, b, x, failure⟩ :=
        ih _ (Record.mem_of_find? found) (sound.field List.mem_append_cons_self) fails
      exact ⟨_, b, x, failure.field sound.level.distinct found before⟩
  | list items ih =>
    cases decodeError_of_error failed with
    | node closed fault => exact ⟨[], a, _, .root closed fault failed⟩
    | bare => exact absurd sound Attribute.Sound.not_bare
    | item found fails before =>
      obtain ⟨p, b, x, failure⟩ := ih _ (List.mem_of_getElem? found) sound.item fails
      exact ⟨_, b, x, failure.index found before⟩

theorem decodeItems_ok_each {decode : Nat → Wire → Except Error (Option Value)}
    (decoded : decodeItems decode start ws = .ok vs) (found : ws[n]? = some w) :
    ∃ v, decode (start + n) w = .ok v := by
  obtain ⟨nothing, _⟩ | ⟨x, v, present, here, _⟩ := decodeItems_getElem? decoded n
  · rw [found] at nothing
    contradiction
  · cases found.symm.trans present
    exact ⟨v, here⟩

/-- Where a wire value is decoded, all that is below it is. -/
theorem decodeAt_at? {a b : Attribute} (decoded : decodeAt d q a w = .ok v)
    (followed : a.follow whole done p = .ok b) :
    ∃ u, decodeAt d (q ++ p) b (w.bind fun x => x.at? p) = .ok u := by
  induction p generalizing a q w v done with
  | nil =>
    cases followed
    rw [List.append_nil]
    exact ⟨v, by simpa [Wire.at?] using decoded⟩
  | cons segment rest ih =>
    obtain ⟨next, below, further⟩ := Attribute.follow_cons_ok_iff.mp followed
    have nothing : ∃ u, decodeAt d (q ++ segment :: rest) b none = .ok u := by
      rw [decodeAt]
      exact ⟨_, rfl⟩
    cases w with
    | none => exact nothing
    | some w =>
      cases below with
      | field found =>
        cases w with
        | m entries =>
          simp only [decodeAt, bind_eq_ok] at decoded
          obtain ⟨fields, each, _⟩ := decoded
          obtain ⟨v, here⟩ := decodeFields_ok_each each _ (Record.mem_of_find? found)
          obtain ⟨u, inside⟩ := ih here further
          rw [List.append_assoc] at inside
          exact ⟨u, inside⟩
        | _ => exact nothing
      | index item n =>
        cases w with
        | l items =>
          rw [decodeAt, map_eq_ok] at decoded
          obtain ⟨values, each, _⟩ := decoded
          cases found : items[n]? with
          | none =>
            rw [Option.bind_some, Wire.at?, found]
            exact nothing
          | some x =>
            obtain ⟨v, here⟩ := decodeItems_ok_each each found
            rw [Nat.zero_add] at here
            obtain ⟨u, inside⟩ := ih here further
            rw [List.append_assoc] at inside
            rw [Option.bind_some, Wire.at?, found]
            exact ⟨u, inside⟩
        | _ => exact nothing

theorem Path.Before.ne_nil {r p : Path} (before : r.Before p) : r ≠ [] := by
  cases before <;> simp

theorem Attribute.Before.ne_nil {a : Attribute} {r p : Path} (before : a.Before r p) : r ≠ [] := by
  cases before <;> simp

/-- Every value beside the way to a place that comes earlier is encoded, and all that is below it
wherever the schema leads. -/
def Schema.EncodesBefore (schema : Schema) (v : Value) (p : Path) : Prop :=
  ∀ r, r.Before p → ∀ u, v.at? r = some u → ∃ a, schema.resolve r = .ok a ∧
    ∀ s b x, schema.resolve (r ++ s) = .ok b → v.at? (r ++ s) = some x →
      ∃ w, encodeAt (r ++ s) b x = .ok w

/-- Every place beside the way to another one that comes earlier is decoded, and all places below it
to which the schema leads. -/
def Schema.DecodesBefore (schema : Schema) (d : Decoding) (item : Item) (p : Path) : Prop :=
  ∀ r, (Attribute.map schema).Before r p → ∃ a, schema.resolve r = .ok a ∧
    ∀ s b, schema.resolve (r ++ s) = .ok b →
      ∃ v, decodeAt d (r ++ s) b ((Wire.m item).at? (r ++ s)) = .ok v

theorem EncodesBefore.of_level {schema : Schema} (level : schema.Level true)
    (before : EncodesBefore [] (.map schema) v p) : schema.EncodesBefore v p := by
  intro r earlier u held
  obtain ⟨a, w, leads, encoded⟩ := before r earlier u held
  obtain ⟨resolved, _⟩ := level.resolve_of_leads leads earlier.ne_nil
  refine ⟨a, resolved, ?_⟩
  intro s b x further inside
  rw [Value.at?_append, held, Option.bind_some] at inside
  obtain ⟨w, _, encoded⟩ :=
    encodeAt_at? encoded (Schema.follow_of_resolve_append resolved further) inside
  exact ⟨w, encodeAt_anywhere encoded _⟩

theorem DecodesBefore.of_level {schema : Schema} (level : schema.Level true)
    (before : DecodesBefore d [] (.map schema) (.m item) p) : schema.DecodesBefore d item p := by
  intro r earlier
  obtain ⟨a, v, leads, decoded⟩ := before r earlier
  obtain ⟨resolved, _⟩ := level.resolve_of_leads leads earlier.ne_nil
  refine ⟨a, resolved, ?_⟩
  intro s b further
  rw [Wire.at?_append]
  exact decodeAt_at? decoded (Schema.follow_of_resolve_append resolved further)

/-- An error of encoding names the path of the value that does not fit, or of the map that has a
field which the schema does not know; an error of strict decoding names the path of the wire value
that is at fault. Alone, what is there fails in the same way, and what comes before it does not. -/
theorem Schema.failure_located {schema : Schema} (accepted : schema.Accepted) :
    (∀ fields e, (Value.map fields).Ordered → schema.encodeItem (.map fields) = .error e →
        ∃ p u, e.location? = some (.path p) ∧ (Value.map fields).at? p = some u ∧
          ((∃ known inner name, (p = [] ∧ known = schema ∨ schema.resolve p = .ok (.map known)) ∧
              u = .map inner ∧ name ∈ inner.map Prod.fst ∧ known.get? name = none ∧
              e = .unknownField (.path p) name ∧
              schema.EncodesBefore (.map fields) (p ++ [.field name])) ∨
            ∃ a, schema.resolve p = .ok a ∧ encodeAt p a u = .error e ∧
              schema.EncodesBefore (.map fields) p)) ∧
      ∀ item e, schema.decodeItem item .strict = .error e →
        ∃ p a x, e.location? = some (.path p) ∧ schema.resolve p = .ok a ∧
          (Wire.m item).at? p = some x ∧ decodeAt .whole p a (some x) = .error e ∧
          schema.DecodesBefore .whole item p ∧
          ∀ q expected found, e = .tagMismatch q expected found →
            expected = a.tag ∧ found = x.tag ∧ found ≠ expected := by
  have level := accepted.wellFormed.toLevel
  constructor
  · intro fields e ordered failed
    have whole : encodeAt [] (.map schema) (.map fields) = .error e := map_eq_error.mpr failed
    obtain ⟨p, failure⟩ := encodeAt_failure (.top level) ordered whole
    cases failure with
    | node leads held flat fault alone before =>
      refine ⟨_, _, fault.location?, held, .inr ⟨_, (level.resolve_of_leads leads ?_).1, alone,
        before.of_level level⟩⟩
      rintro rfl
      cases leads
      cases held
      exact flat schema fields rfl rfl
    | unknown leads held given unknown before =>
      refine ⟨_, _, rfl, held, .inl ⟨_, _, _, ?_, rfl, given, unknown, rfl,
        before.of_level level⟩⟩
      cases leads with
      | here => exact .inl ⟨rfl, rfl⟩
      | field member further =>
        exact .inr (level.resolve_of_leads (.field member further) (List.cons_ne_nil _ _)).1
  · intro item e failed
    obtain ⟨p, a, x, failure⟩ := decodeAt_failure (.top level) (decodeAt_of_decodeWith_error failed)
    obtain ⟨leads, held, closed, fault, alone, before⟩ := failure
    have inside : p ≠ [] := by
      rintro rfl
      cases leads
      cases held
      contradiction
    obtain ⟨resolved, _⟩ := level.resolve_of_leads leads inside
    refine ⟨p, a, x, fault.location?, resolved, held, alone, before.of_level level, ?_⟩
    rintro q expected found rfl
    cases fault with
    | tag other => exact ⟨rfl, rfl, other⟩

namespace Freight

def leg : Schema :=
  [("weight", .scalar .number), ("marks", .set .string)]

def schema : Schema :=
  [("id", .partitionKey .string), ("legs", .list (some (.map leg)))]

/-- The weight of the second leg is a text. -/
def heavy : List (String × Value) :=
  [("id", .string "x"), ("legs", .list [.ofFields [("weight", .null)],
    .ofFields [("weight", .string "heavy"), ("marks", .list [.string "fragile"])]])]

/-- The marks of the first leg are a text. -/
def marked : Item :=
  [("legs", .l [.m [("marks", .s "fragile"), ("weight", .n "5")]]), ("id", .s "x")]

theorem heavy_ordered : (Value.ofFields heavy).Ordered := by
  have text : ∀ s, (Value.string s).Ordered := fun s => .flat rfl rfl
  have light : (Value.ofFields [("weight", .null)]).Ordered :=
    Value.ofFields_ordered (by simpa using .flat rfl rfl)
  have second : (Value.ofFields [("weight", .string "heavy"),
      ("marks", .list [.string "fragile"])]).Ordered :=
    Value.ofFields_ordered (by simpa using ⟨text _, .list (by simpa using text _)⟩)
  have legs : (Value.list [.ofFields [("weight", .null)], .ofFields [("weight", .string "heavy"),
      ("marks", .list [.string "fragile"])]]).Ordered :=
    .list (by simpa using ⟨light, second⟩)
  exact Value.ofFields_ordered (by simpa [heavy] using ⟨text _, legs⟩)

theorem heavy_located :
    schema.EncodesBefore (.ofFields heavy) [.field "legs", .index 1, .field "weight"] ∧
      schema.DecodesBefore .whole marked [.field "legs", .index 0, .field "marks"] := by
  obtain ⟨encoding, decoding⟩ := Schema.failure_located (.inr ⟨schema, rfl⟩ : schema.Accepted)
  constructor
  · obtain ⟨p, u, located, held, unknown | ⟨a, _, _, before⟩⟩ :=
      encoding (Record.ofList heavy) _ heavy_ordered rfl
    · obtain ⟨_, _, _, _, _, _, _, other, _⟩ := unknown
      contradiction
    · cases located
      exact before
  · obtain ⟨p, a, x, located, _, _, _, before, _⟩ := decoding marked _ rfl
    cases located
    exact before

end Freight

end ItemSchema
