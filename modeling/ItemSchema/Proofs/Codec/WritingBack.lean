import ItemSchema.Proofs.Codec.Conformance
import ItemSchema.Proofs.Codec.Lenience
import ItemSchema.Proofs.Codec.Rereading

/-! Writing back what was read. Decoding takes more than encoding writes: null for a key, sets
without members and dates below the millisecond. Nothing else that was read strictly is refused, and
what decoding puts in for absent lists and maps is written like any other value. -/
namespace ItemSchema

def Wire.isEmptySet : Wire → Bool
  | .ss texts => texts.isEmpty
  | .ns numbers => numbers.isEmpty
  | .bs binaries => binaries.isEmpty
  | _ => false

/-- The timestamp of an instant that is not on a whole millisecond. -/
inductive Wire.IsFineDate : Wire → Prop where
  | text (read : Instant.ofText? text = some t) (fine : t.isWholeMillis = false) :
    IsFineDate (.s text)

theorem Wire.isFineDate_iff (read : Instant.ofText? text = some t) :
    (Wire.s text).IsFineDate ↔ t.isWholeMillis = false := by
  constructor
  · intro fine
    cases fine with
    | text read' fine =>
      cases read.symm.trans read'
      exact fine
  · exact .text read

theorem ScalarType.admits_date_iff : ScalarType.date.Admits (.date t) ↔ t.isWholeMillis = true := by
  constructor
  · intro admits
    cases admits with
    | date millis => exact millis
  · exact .date

/-- What strict decoding takes for an attribute, though encoding does not write it. -/
inductive Attribute.Unwritable : Attribute → Wire → Prop where
  | key (key : a.isKey = true) : Unwritable a .null
  | set (empty : w.isEmptySet = true) : Unwritable (.set of) w
  | date (fine : w.IsFineDate) : Unwritable (.scalar .date) w

/-- None of the places that decoding comes to is unwritable. -/
def Attribute.Rewritable (a : Attribute) (w : Wire) : Prop :=
  ∀ p b x, a.Leads p b → w.at? p = some x → ¬b.Unwritable x

namespace Attribute

/-- Of values that are not gone into only the wire value itself matters. -/
theorem rewritable_closed {a : Attribute} (closed : a.opens w = false) :
    a.Rewritable w ↔ ¬a.Unwritable w := by
  constructor
  · intro rewritable
    exact rewritable [] a w (.here a) rfl
  · intro writable p b x leads held
    cases leads with
    | here =>
      cases held
      exact writable
    | field member further => cases w <;> simp [Wire.at?, opens] at held closed
    | index n further => cases w <;> simp [Wire.at?, opens] at held closed

theorem rewritable_list {item : Attribute} :
    (Attribute.list (some item)).Rewritable (.l ws) ↔ ∀ w ∈ ws, item.Rewritable w := by
  constructor
  · intro rewritable w member p b x leads held
    obtain ⟨n, found⟩ := List.getElem?_of_mem member
    refine rewritable (.index n :: p) b x (.index n leads) ?_
    rw [Wire.at?, found, Option.bind_some, held]
  · intro each p b x leads held
    cases leads with
    | here =>
      cases held
      intro unwritable
      cases unwritable
    | index n further =>
      rw [Wire.at?, Option.bind_eq_some_iff] at held
      obtain ⟨w, found, held⟩ := held
      exact each w (List.mem_of_getElem? found) _ b x further held

theorem rewritable_map {fields : Schema} : (Attribute.map fields).Rewritable (.m entries) ↔
    ∀ field ∈ fields, ∀ w, Record.find? field.1 entries = some w → field.2.Rewritable w := by
  constructor
  · intro rewritable field member w found p b x leads held
    refine rewritable (.field field.1 :: p) b x (.field member leads) ?_
    rw [Wire.at?, found, Option.bind_some, held]
  · intro each p b x leads held
    cases leads with
    | here =>
      cases held
      intro unwritable
      cases unwritable
    | field member further =>
      rw [Wire.at?, Option.bind_eq_some_iff] at held
      obtain ⟨w, found, held⟩ := held
      exact each _ member w found _ b x further held

theorem unwritable_null_iff {a : Attribute} : a.Unwritable .null ↔ a.isKey = true := by
  constructor
  · intro unwritable
    cases unwritable with
    | key key => exact key
    | set empty => contradiction
    | date fine => contradiction
  · exact .key

theorem unwritable_set_iff (present : w.tag ≠ .null) :
    (Attribute.set of).Unwritable w ↔ w.isEmptySet = true := by
  constructor
  · intro unwritable
    cases unwritable with
    | key key => contradiction
    | set empty => exact empty
  · exact .set

/-- Keys have no dates, so what is there is written like a scalar of their type. -/
theorem unwritable_scalar_iff {a : Attribute} (typed : a.kind.scalarType? = some of)
    (present : w.tag ≠ .null) : a.Unwritable w ↔ of = .date ∧ w.IsFineDate := by
  constructor
  · intro unwritable
    cases unwritable with
    | key key => exact absurd rfl present
    | set empty => contradiction
    | date fine =>
      cases typed
      exact ⟨rfl, fine⟩
  · rintro ⟨rfl, fine⟩
    cases a with
    | partitionKey key | sortKey key => cases key <;> contradiction
    | scalar of =>
      cases typed
      exact .date fine
    | _ => contradiction

end Attribute

section

variable {p q : Path} {fill : Bool}

theorem decodeAt_present {a : Attribute} (decoded : decodeAt d p a (some w) = .ok u) :
    ∃ v, u = some v := by
  unfold decodeAt at decoded
  split at decoded
  case h_1 | h_8 => contradiction
  case h_2 =>
    cases decoded
    exact ⟨_, rfl⟩
  case h_9 =>
    simp only [bind_eq_ok, except_pure, Except.ok.injEq] at decoded
    obtain ⟨fields, _, rfl⟩ := decoded
    exact ⟨_, rfl⟩
  all_goals
    obtain ⟨v, _, rfl⟩ := map_eq_ok.mp decoded
    exact ⟨_, rfl⟩

/-- A scalar that was read is written, unless it is a date below the millisecond. -/
theorem admits_decodeScalar (decoded : decodeScalar .strict p of w = .ok v) :
    v ≠ .null ∧ (of.Admits v ↔ ¬(of = .date ∧ w.IsFineDate)) := by
  unfold decodeScalar at decoded
  split at decoded
  · cases decoded
    simp [ScalarType.Admits.string]
  · obtain ⟨d, rfl⟩ := decodeNumber_strict decoded
    simp [ScalarType.Admits.number]
  · split at decoded
    · cases decoded
      simp [ScalarType.Admits.bigint]
    · exact (decodeUnfit_strict decoded).elim
  · cases decoded
    simp [ScalarType.Admits.boolean]
  · split at decoded
    · rename_i t read
      cases decoded
      simp [ScalarType.admits_date_iff, Wire.isFineDate_iff read]
    · contradiction
  all_goals contradiction

/-- A set that was read is written, unless it is empty. -/
theorem admits_decodeSet (decoded : decodeSet .strict p of w = .ok v) :
    (Attribute.set of).Admits v ↔ w.isEmptySet = false := by
  unfold decodeSet at decoded
  split at decoded
  · rename_i texts
    cases decoded
    cases texts <;> simp [Attribute.admits_set_iff, Wire.isEmptySet, SetType.Admits.string]
  · rename_i numbers
    obtain ⟨members, each, rfl⟩ := map_eq_ok.mp decoded
    have admitted : ∀ u ∈ members, SetType.number.Admits u := by
      intro u member
      obtain ⟨number, _, decoded⟩ := mapM_mem each member
      obtain ⟨d, rfl⟩ := decodeNumber_strict decoded
      exact .number d
    have count := mapM_length each
    rw [Attribute.admits_set_iff, and_iff_left admitted]
    cases numbers <;> cases members <;> simp_all [Wire.isEmptySet]
  · rename_i binaries
    cases decoded
    cases binaries <;> simp [Attribute.admits_set_iff, Wire.isEmptySet, SetType.Admits.binary]
  all_goals contradiction

/-- What is put in for an absent list or map is empty. -/
theorem admits_absent {a : Attribute} (sound : a.Sound)
    (decoded : decodeAt ⟨.strict, fill⟩ p a none = .ok (some v)) : a.Admits v := by
  rw [decodeAt, Except.ok.injEq] at decoded
  cases a with
  | list item =>
    cases item with
    | none => exact (Attribute.Sound.not_bare sound).elim
    | some item =>
      cases fill with
      | true =>
        cases decoded
        exact Attribute.admits_list_iff.mpr (by simp)
      | false => contradiction
  | map schema =>
    cases fill with
    | true =>
      cases decoded
      exact Attribute.admits_map_iff.mpr (by simp)
    | false => contradiction
  | _ => contradiction

/-- What holds of the values of a list holds of what they were decoded from. -/
theorem decodeItems_forall_iff {decode : Nat → Wire → Except Error (Option Value)}
    {P : Value → Prop} {Q : Wire → Prop}
    (each : ∀ i w u, decode i w = .ok u → (P (u.getD .null) ↔ Q w))
    (decoded : decodeItems decode start ws = .ok vs) : (∀ v ∈ vs, P v) ↔ ∀ w ∈ ws, Q w := by
  induction ws generalizing start vs with
  | nil =>
    cases decoded
    simp
  | cons w rest ih =>
    simp only [decodeItems, bind_eq_ok, except_pure, Except.ok.injEq] at decoded
    obtain ⟨u, first, others, later, rfl⟩ := decoded
    rw [List.forall_mem_cons, List.forall_mem_cons, each start w u first, ih later]

/-- Null is written wherever no key is. -/
theorem admits_iff_of_present {a : Attribute}
    (present : ∀ q w v, w.tag ≠ .null → decodeAt ⟨.strict, fill⟩ q a (some w) = .ok (some v) →
      (a.Admits v ↔ a.Rewritable w))
    (decoded : decodeAt ⟨.strict, fill⟩ q a (some w) = .ok (some v)) :
    a.Admits v ↔ a.Rewritable w := by
  by_cases tagged : w.tag = .null
  · cases w with
    | null =>
      have closed : a.opens .null = false := by cases a <;> simp [Attribute.opens]
      rw [decodeAt] at decoded
      cases decoded
      rw [Attribute.rewritable_closed closed, Attribute.unwritable_null_iff,
        Attribute.admits_null_iff, Bool.not_eq_true]
    | _ => contradiction
  · exact present q w v tagged decoded

/-- What a map has was read from an entry, or was put in for an absent one. -/
theorem admits_decodeFields {schema : Schema} (sound : (Attribute.map schema).Sound)
    (decoded : decodeFields ⟨.strict, fill⟩ q entries schema = .ok fields)
    (each : ∀ field ∈ schema, ∀ q w v,
      decodeAt ⟨.strict, fill⟩ q field.2 (some w) = .ok (some v) →
        (field.2.Admits v ↔ field.2.Rewritable w)) :
    (Attribute.map schema).Admits (.map (Record.ofList fields)) ↔
      (Attribute.map schema).Rewritable (.m entries) := by
  have look := decodeFields_find? sound.level.distinct decoded
  rw [Attribute.admits_map_iff, Attribute.rewritable_map]
  constructor
  · rintro admits ⟨name, a⟩ member w held
    have here := look name
    rw [Schema.get?, Record.find?_of_mem sound.level.distinct member, held] at here
    obtain ⟨v, given⟩ := decodeAt_present here
    obtain ⟨b, found, fits⟩ := admits _ (Record.mem_of_find? given)
    rw [Schema.get?, Record.find?_of_mem sound.level.distinct member] at found
    cases found
    rw [given] at here
    exact (each _ member _ w v here).mp fits
  · rintro rewritable ⟨name, v⟩ member
    have given := Record.find?_of_mem (Record.ofList_sorted fields).distinct member
    have here := look name
    rw [given] at here
    cases found : schema.get? name with
    | none =>
      rw [found] at here
      contradiction
    | some a =>
      rw [found] at here
      have known := Record.mem_of_find? found
      refine ⟨a, rfl, ?_⟩
      cases held : Record.find? name entries with
      | none =>
        rw [held] at here
        exact admits_absent (sound.field known) here
      | some w =>
        rw [held] at here
        exact (each _ known _ w v here).mpr (rewritable _ known w held)

/-- What was read at a place is written exactly if no place from there on is unwritable. -/
theorem admits_iff_rewritable {a : Attribute} (sound : a.Sound)
    (decoded : decodeAt ⟨.strict, fill⟩ q a (some w) = .ok (some v)) :
    a.Admits v ↔ a.Rewritable w := by
  induction a using Attribute.below_induction generalizing q w v with
  | scalar a of typed =>
    refine admits_iff_of_present (fun q w v present decoded => ?_) decoded
    have closed : a.opens w = false := by
      cases a with
      | partitionKey | sortKey | scalar => rfl
      | _ => contradiction
    rw [decodeAt_scalar typed present, map_eq_ok] at decoded
    obtain ⟨_, decoded, same⟩ := decoded
    cases same
    obtain ⟨notNull, admits⟩ := admits_decodeScalar decoded
    rw [Attribute.rewritable_closed closed, Attribute.unwritable_scalar_iff typed present,
      Attribute.admits_scalar_iff typed notNull, admits]
  | set of =>
    refine admits_iff_of_present (fun q w v present decoded => ?_) decoded
    rw [decodeAt_set present, map_eq_ok] at decoded
    obtain ⟨_, decoded, same⟩ := decoded
    cases same
    rw [Attribute.rewritable_closed rfl, Attribute.unwritable_set_iff present,
      admits_decodeSet decoded, Bool.not_eq_true]
  | bare => exact sound.not_bare.elim
  | list item ih =>
    refine admits_iff_of_present (fun q w v present decoded => ?_) decoded
    cases w with
    | null => contradiction
    | l ws =>
      rw [decodeAt, map_eq_ok] at decoded
      obtain ⟨vs, decoded, same⟩ := decoded
      cases same
      rw [Attribute.admits_list_iff, Attribute.rewritable_list]
      refine decodeItems_forall_iff (fun i w u here => ?_) decoded
      obtain ⟨v, rfl⟩ := decodeAt_present here
      exact ih sound.item here
    | _ => contradiction
  | map fields ih =>
    refine admits_iff_of_present (fun q w v present decoded => ?_) decoded
    cases w with
    | null => contradiction
    | m entries =>
      simp only [decodeAt, bind_eq_ok, except_pure, Except.ok.injEq] at decoded
      obtain ⟨found, decoded, same⟩ := decoded
      cases same
      exact admits_decodeFields sound decoded fun field member q w v decoded =>
        ih field member (sound.field member) decoded
    | _ => contradiction

/-- What a value that was read has one step down was read from what is one step down. -/
theorem decodeAt_below {a b : Attribute} {s : Segment String} (sound : a.Sound)
    (below : a.Below s b) (decoded : decodeAt ⟨.strict, fill⟩ q a w = .ok (some v))
    (held : v.at? [s] = some u) :
    decodeAt ⟨.strict, fill⟩ (q ++ [s]) b (w.bind fun x => x.at? [s]) = .ok (some u) := by
  cases w with
  | none =>
    rw [decodeAt, Except.ok.injEq] at decoded
    -- Only an empty list or map is put in, and nothing is below these.
    cases below <;> cases fill <;> cases decoded <;> simp [Value.at?, Record.find?] at held
  | some w =>
    cases below with
    | @field fields name b found =>
      cases w with
      | m entries =>
        simp only [decodeAt, bind_eq_ok, except_pure, Except.ok.injEq] at decoded
        obtain ⟨read, decoded, same⟩ := decoded
        cases same
        have here := decodeFields_find? sound.level.distinct decoded name
        have given : Record.find? name (Record.ofList read) = some u := by
          simpa [Value.at?] using held
        rw [found, given] at here
        simpa [Wire.at?] using here
      | null =>
        cases decoded
        contradiction
      | _ => simp [decodeAt, decodeMismatch] at decoded
    | index item n =>
      cases w with
      | l ws =>
        rw [decodeAt, map_eq_ok] at decoded
        obtain ⟨vs, decoded, same⟩ := decoded
        cases same
        have given : vs[n]? = some u := by simpa [Value.at?] using held
        obtain ⟨_, nothing⟩ | ⟨x, y, found, here, kept⟩ := decodeItems_getElem? decoded n
        · rw [given] at nothing
          contradiction
        · obtain ⟨z, rfl⟩ := decodeAt_present here
          cases given.symm.trans kept
          rw [Nat.zero_add] at here
          simpa [Wire.at?, found] using here
      | null =>
        cases decoded
        contradiction
      | _ => simp [decodeAt, decodeMismatch] at decoded

/-- What a value that was read has at a place was read from that place. -/
theorem decodeAt_held {a b : Attribute} (sound : a.Sound)
    (followed : a.follow whole done p = .ok b)
    (decoded : decodeAt ⟨.strict, fill⟩ q a w = .ok (some v)) (held : v.at? p = some u) :
    decodeAt ⟨.strict, fill⟩ (q ++ p) b (w.bind fun x => x.at? p) = .ok (some u) := by
  induction p generalizing a q w v done with
  | nil =>
    cases followed
    cases held
    rw [List.append_nil]
    simpa [Wire.at?] using decoded
  | cons s rest ih =>
    obtain ⟨next, below, further⟩ := Attribute.follow_cons_ok_iff.mp followed
    rw [← List.singleton_append, Value.at?_append, Option.bind_eq_some_iff] at held
    obtain ⟨y, here, held⟩ := held
    have inside := ih (sound.below below) further (decodeAt_below sound below decoded here) held
    rw [List.append_assoc, Option.bind_assoc] at inside
    simpa only [← Wire.at?_append, List.singleton_append] using inside

theorem admits_of_scalarType {a : Attribute} {w : Option Wire} (sound : a.Sound)
    (typed : a.kind.scalarType? = some of) (noDate : of ≠ .date) (notNull : v ≠ .null)
    (decoded : decodeAt ⟨.strict, fill⟩ q a w = .ok (some v)) : a.Admits v := by
  cases w with
  | none => exact admits_absent sound decoded
  | some w =>
    have present : w.tag ≠ .null := by
      intro tagged
      cases w with
      | null =>
        rw [decodeAt] at decoded
        cases decoded
        contradiction
      | _ => contradiction
    rw [decodeAt_scalar typed present, map_eq_ok] at decoded
    obtain ⟨_, decoded, same⟩ := decoded
    cases same
    exact .scalar typed ((admits_decodeScalar decoded).2.mpr fun fine => noDate fine.1)

/-- What was read is written exactly if no place of it, if there is any, is unwritable. -/
theorem encodes_iff_of_decoded {a : Attribute} {w : Option Wire} (sound : a.Sound)
    (decoded : decodeAt ⟨.strict, fill⟩ q a w = .ok (some v)) :
    (∃ again, encodeAt p a v = .ok again) ↔ ∀ r b x, a.Leads r b →
      (w.bind fun y => y.at? r) = some x → ¬b.Unwritable x := by
  rw [exists_encodeAt_ok_iff]
  cases w with
  | none => simp [admits_absent sound decoded]
  | some w => exact admits_iff_rewritable sound decoded

end

theorem Schema.exists_encodeItem_ok_iff {schema : Schema} :
    (∃ item, schema.encodeItem (.map fields) = .ok item) ↔
      ∃ w, encodeAt [] (.map schema) (.map fields) = .ok w := by
  simp only [encodeItem, encodeAt, map_eq_ok]
  constructor
  · rintro ⟨item, encoded⟩
    exact ⟨_, item, encoded, rfl⟩
  · rintro ⟨_, item, encoded, _⟩
    exact ⟨item, encoded⟩

/-- An item that was read strictly is written back exactly if none of its places is a null for a key,
an empty set for a set, or a date below the millisecond for a date. The same holds from each place
of the item on. So what is absent from the item, null where no key is, or of any other scalar type
than dates is always written. -/
theorem Schema.encodeItem_decoded (read : Schema.ofText text = .ok schema)
    (decoded : schema.decodeItem item .strict = .ok v) :
    ((∃ again, schema.encodeItem v = .ok again) ↔
      ∀ p a x, schema.resolve p = .ok a → (Wire.m item).at? p = some x → ¬a.Unwritable x) ∧
    (∀ p a u, schema.resolve p = .ok a → v.at? p = some u →
      ((∃ w, encodeAt p a u = .ok w) ↔ ∀ q b x, schema.resolve (p ++ q) = .ok b →
        (Wire.m item).at? (p ++ q) = some x → ¬b.Unwritable x)) ∧
    ∀ p a u, schema.resolve p = .ok a → v.at? p = some u →
      ((Wire.m item).at? p = none ∨ u = .null ∧ a.isKey = false ∨
        ∃ of, a.kind.scalarType? = some of ∧ of ≠ .date ∧ u ≠ .null) →
      ∃ w, encodeAt p a u = .ok w := by
  have level := (ofText_wellFormed read).toLevel
  have sound : (Attribute.map schema).Sound := .top level
  have whole : decodeAt .whole [] (.map schema) (some (.m item)) = .ok (some v) := by
    rw [decodeAt_item]
    exact map_eq_ok.mpr ⟨v, decoded, rfl⟩
  have place : ∀ p a u, schema.resolve p = .ok a → v.at? p = some u →
      a.Sound ∧ decodeAt .whole p a ((Wire.m item).at? p) = .ok (some u) := by
    intro p a u resolved held
    have leads := (level.resolve_iff_leads.mp resolved).2
    have followed : (Attribute.map schema).follow p [] p = .ok a := sound.follow_iff.mpr leads
    exact ⟨sound.follow followed, decodeAt_held sound followed whole held⟩
  refine ⟨?_, ?_, ?_⟩
  · obtain ⟨fields, rfl⟩ : ∃ fields, v = .map fields := by
      simp only [decodeItem, decodeWith, bind_eq_ok, except_pure, Except.ok.injEq] at decoded
      obtain ⟨fields, _, rfl⟩ := decoded
      exact ⟨_, rfl⟩
    rw [exists_encodeItem_ok_iff, encodes_iff_of_decoded sound whole]
    simp only [level.resolve_iff_leads, Option.bind_some]
    constructor
    · rintro writable p a x ⟨_, leads⟩ held
      exact writable p a x leads held
    · intro writable p a x leads held
      by_cases top : p = []
      · subst top
        cases leads
        cases held
        intro unwritable
        cases unwritable
      · exact writable p a x ⟨top, leads⟩ held
  · intro p a u resolved held
    obtain ⟨sound, decoded⟩ := place p a u resolved held
    rw [encodes_iff_of_decoded sound decoded]
    simp only [level.resolve_append_iff resolved, Wire.at?_append]
  · intro p a u resolved held always
    obtain ⟨sound, decoded⟩ := place p a u resolved held
    rw [exists_encodeAt_ok_iff]
    rcases always with absent | ⟨rfl, notKey⟩ | ⟨of, typed, noDate, notNull⟩
    · rw [absent] at decoded
      exact admits_absent sound decoded
    · exact Attribute.admits_null_iff.mpr notKey
    · exact admits_of_scalarType sound typed noDate notNull decoded

namespace Wallet

/-- A wallet without a name and without its main card. -/
def anonymous : Value :=
  .map [("id", .null), ("main", .map [])]

theorem anonymous_unwritten :
    brief.decodeItem [("id", .null)] .strict = .ok anonymous ∧
      (¬∃ again, brief.encodeItem anonymous = .ok again) ∧
      ∃ w, encodeAt [.field "main"] (.map [("owners", .list (some (.scalar .string)))])
        (.map []) = .ok w := by
  have decoded : brief.decodeItem [("id", .null)] .strict = .ok anonymous := rfl
  obtain ⟨whole, _, always⟩ := Schema.encodeItem_decoded brief_read decoded
  refine ⟨decoded, ?_, always [.field "main"] _ _ rfl rfl (.inl rfl)⟩
  rw [whole]
  intro writable
  exact writable [.field "id"] _ .null rfl rfl (.key rfl)

end Wallet

end ItemSchema
