import ItemSchema.Proofs.Codec.Distinct
import ItemSchema.Proofs.Codec.RoundTrip
import ItemSchema.Proofs.Text.Bytes

/-! Sets as they are stored. Members are compared in the form in which they are stored, numbers by
their value; of members that are the same the first one given is kept, and what is stored is read
and stored again as it is. -/
namespace ItemSchema

namespace Wire

/-- What tells stored members apart: the normal form of a number, the bytes of all else. -/
def memberKey : Wire → List UInt8
  | .n number =>
    let normal := (Decimal.ofText? number).map fun d => d.normalize.toText
    Text.utf8 (normal.getD number)
  | .s text => Text.utf8 text
  | .b bytes => bytes
  | _ => []

def memberText? : Wire → Option String
  | .s text | .n text => some text
  | _ => none

def memberBytes? : Wire → Option (List UInt8)
  | .b bytes => some bytes
  | _ => none

end Wire

namespace SetType

/-- Whether a value is of the type of the members. -/
def owns : SetType → Value → Bool
  | .string, .string _ | .number, .number _ | .binary, .binary _ => true
  | _, _ => false

/-- A stored set of stored members. -/
def collect : SetType → List Wire → Wire
  | .string, members => .ss (members.filterMap Wire.memberText?)
  | .number, members => .ns (members.filterMap Wire.memberText?)
  | .binary, members => .bs (members.filterMap Wire.memberBytes?)

/-- A stored set has the texts or the bytes of some members, in their order. -/
inductive Holds : SetType → List Value → Wire → Prop where
  | string (texts : List String) : Holds .string (texts.map .string) (.ss texts)
  | number (ds : List Decimal) : Holds .number (ds.map .number) (.ns (ds.map Decimal.toText))
  | binary (binaries : List (List UInt8)) : Holds .binary (binaries.map .binary) (.bs binaries)

end SetType

theorem memberKey_number_eq_iff {d e : Decimal} :
    Wire.memberKey (.n d.toText) = Wire.memberKey (.n e.toText) ↔ d.normalize = e.normalize := by
  have key : ∀ d : Decimal,
      Wire.memberKey (.n d.toText) = Text.utf8 d.normalize.toText := by
    intro d
    have unsigned : d.dropZeroSign.normalize = d.normalize :=
      Decimal.normalize_eq_iff.mpr d.value_dropZeroSign
    simp [Wire.memberKey, Decimal.ofText?_toText, unsigned]
  rw [key, key, Text.utf8_inj]
  constructor
  · intro same
    have value := Decimal.value_of_toText same
    rwa [Decimal.value_normalize, Decimal.value_normalize, ← Decimal.normalize_eq_iff] at value
  · exact congrArg Decimal.toText

section

open SetType

theorem filterMap_stored (content? : Wire → Option β) (store : α → Wire) (content : α → β)
    (has : ∀ x, content? (store x) = some (content x)) (xs : List α) :
    (xs.map store).filterMap content? = xs.map content := by
  induction xs with
  | nil => rfl
  | cons x rest ih => rw [List.map_cons, List.filterMap_cons, has, ih, List.map_cons]

theorem collect_texts (texts : List String) : collect .string (texts.map .s) = .ss texts :=
  congrArg Wire.ss ((filterMap_stored _ Wire.s id (fun _ => rfl) texts).trans (List.map_id texts))

theorem collect_numbers (ds : List Decimal) :
    collect .number (ds.map fun d => .n d.toText) = .ns (ds.map Decimal.toText) :=
  congrArg Wire.ns (filterMap_stored _ _ Decimal.toText (fun _ => rfl) ds)

theorem collect_binaries (binaries : List (List UInt8)) :
    collect .binary (binaries.map .b) = .bs binaries :=
  congrArg Wire.bs
    ((filterMap_stored _ Wire.b id (fun _ => rfl) binaries).trans (List.map_id binaries))

/-- Members that are told apart before they are stored are told apart afterwards. -/
theorem collect_distinct {of : SetType} {κ : Type} [DecidableEq κ] (key : α → κ) (store : α → Wire)
    (apart : ∀ x y, (store x).memberKey = (store y).memberKey ↔ key x = key y)
    (make : List α → Wire) (collects : ∀ xs, of.collect (xs.map store) = make xs)
    (read : Value → Except Error α) (given : List Value) :
    (do return make (distinctBy key [] (← given.mapM read))) =
      (fun members => of.collect (distinctBy Wire.memberKey [] members)) <$>
        given.mapM fun v => store <$> read v := by
  rw [mapM_map_result]
  cases given.mapM read with
  | error e => rfl
  | ok xs =>
    have kept : distinctBy Wire.memberKey [] (xs.map store) = (distinctBy key [] xs).map store :=
      distinctBy_map store Wire.memberKey apart []
    exact congrArg Except.ok ((congrArg of.collect kept).trans (collects _)).symm

/-- Encoding a set goes through its members in the form in which they are stored. -/
theorem encodeMembers_eq_collect (p : Path) (of : SetType) (given : List Value) :
    encodeMembers p of given =
      (fun members => of.collect (distinctBy Wire.memberKey [] members)) <$>
        given.mapM (encodeMember p of) := by
  cases of with
  | string =>
    exact collect_distinct id .s (fun _ _ => Text.utf8_inj) .ss collect_texts (stringMember p) given
  | number =>
    exact collect_distinct Decimal.normalize (fun d => .n d.toText)
      (fun _ _ => memberKey_number_eq_iff) (fun ds => .ns (ds.map Decimal.toText)) collect_numbers
      (numberMember p) given
  | binary =>
    exact collect_distinct id .b (fun _ _ => Iff.rfl) .bs collect_binaries (binaryMember p) given

end

section

variable {of : SetType} {given kept : List Value}

theorem encodeMember_owned (owned : of.owns v = true) (p : Path) :
    ∃ w, encodeMember p of v = .ok w := by
  cases of <;> cases v <;> first | contradiction | exact ⟨_, rfl⟩

theorem encodeMember_foreign (foreign : of.owns v = false) (p : Path) :
    encodeMember p of v = .error (.typeMismatch (.path p) (.setElement of) (.kind v.kind)) := by
  cases of <;> cases v <;> first | contradiction | rfl

theorem encodeMembers_owned (owned : ∀ v ∈ given, of.owns v = true) (p : Path) :
    ∃ w, encodeMembers p of given = .ok w := by
  obtain ⟨members, encoded⟩ :=
    exists_mapM_ok_iff.mpr fun v member => encodeMember_owned (owned v member) p
  rw [encodeMembers_eq_collect, encoded]
  exact ⟨_, rfl⟩

theorem sameMember_number (d e : Decimal) :
    Value.sameMember (.number d) (.number e) = decide (d.normalize = e.normalize) :=
  decide_eq_decide.mpr Decimal.normalize_eq_iff.symm

/-- The first of each member is stored. -/
theorem encodeMembers_keepsFirst (encoded : encodeMembers p of given = .ok w) :
    ∃ kept, KeepsFirst Value.sameMember given kept ∧ of.Holds kept w := by
  replace encoded := encodeMembers_ok_iff.mp encoded
  cases of with
  | string =>
    obtain ⟨texts, rfl, rfl⟩ := encoded
    exact ⟨_, (distinctBy_keepsFirst id texts).map Value.string fun _ _ => rfl, .string _⟩
  | number =>
    obtain ⟨ds, rfl, rfl⟩ := encoded
    exact ⟨_, (distinctBy_keepsFirst Decimal.normalize ds).map Value.number sameMember_number,
      .number _⟩
  | binary =>
    obtain ⟨binaries, rfl, rfl⟩ := encoded
    exact ⟨_, (distinctBy_keepsFirst id binaries).map Value.binary fun _ _ => rfl, .binary _⟩

/-- The first member of another type ends the encoding. -/
theorem encodeMembers_foreign (first : given.find? (fun v => !of.owns v) = some v) (p : Path) :
    encodeMembers p of given =
      .error (.typeMismatch (.path p) (.setElement of) (.kind v.kind)) := by
  obtain ⟨foreign, front, back, rfl, before⟩ := List.find?_eq_some_iff_append.mp first
  rw [encodeMembers_eq_collect, map_eq_error, mapM_eq_error_iff]
  refine ⟨front, v, back, rfl, ?_, encodeMember_foreign (by simpa using foreign) p⟩
  intro u member
  exact encodeMember_owned (by simpa using before u member) p

/-- A stored set is read in either mode, whether or not it is a part of an item. -/
theorem SetType.Holds.decodeAt (holds : of.Holds kept w) (d : Decoding) (q : Path) :
    decodeAt d q (.set of) (some w) = .ok (some (.set (kept.map Value.dropZeroSigns))) := by
  cases holds with
  | string texts | binary binaries =>
    simp [ItemSchema.decodeAt, decodeSet, Value.dropZeroSigns]
  | number ds =>
    have read : (ds.map Decimal.toText).mapM (decodeNumber d.mode q) =
        .ok (ds.map fun n => .number n.dropZeroSign) := by
      rw [List.mapM_map, mapM_eq_ok_of_map]
      intro n _
      simp [decodeNumber, Decimal.ofText?_toText]
    simp [ItemSchema.decodeAt, decodeSet, read, Value.dropZeroSigns]

theorem distinctBy_of_apart {α κ : Type} [DecidableEq κ] {key : α → κ} {make : α → Value}
    {xs : List α}
    (alike : ∀ x y, Value.sameMember (make x) (make y) = decide (key x = key y))
    (apart : (xs.map make).Pairwise fun u v => Value.sameMember u v = false) :
    distinctBy key [] xs = xs := by
  have different : (xs.map key).Nodup := by
    rw [List.pairwise_map] at apart
    refine List.pairwise_map.mpr (apart.imp fun {x y} different => ?_)
    simpa [alike] using different
  exact distinctBy_eq_self different fun _ _ => List.not_mem_nil

/-- Members that differ are all stored. -/
theorem SetType.Holds.encodeMembers (holds : of.Holds kept w)
    (apart : kept.Pairwise fun u v => Value.sameMember u v = false) (p : Path) :
    encodeMembers p of kept = .ok w := by
  rw [encodeMembers_ok_iff]
  cases holds with
  | string texts =>
    have all : distinctBy id [] texts = texts := distinctBy_of_apart (fun _ _ => rfl) apart
    exact ⟨texts, rfl, congrArg Wire.ss all⟩
  | number ds =>
    have all : distinctBy Decimal.normalize [] ds = ds :=
      distinctBy_of_apart sameMember_number apart
    exact ⟨ds, rfl, congrArg (fun ds => Wire.ns (ds.map Decimal.toText)) all⟩
  | binary binaries =>
    have all : distinctBy id [] binaries = binaries := distinctBy_of_apart (fun _ _ => rfl) apart
    exact ⟨binaries, rfl, congrArg Wire.bs all⟩

/-- A number that is read as it was written has no sign at a zero, and no other member has one. -/
theorem dropZeroSigns_member
    (undone : ∀ n, .number n ∈ given → Decimal.ofText? n.toText = some n) (member : v ∈ given)
    (owned : of.owns v = true) : v.dropZeroSigns = v := by
  cases v with
  | number n =>
    have same := undone n member
    rw [Decimal.ofText?_toText, Option.some.injEq] at same
    rw [Value.dropZeroSigns, same]
  | string _ | binary _ => rfl
  | _ => cases of <;> contradiction

theorem encodeAt_set (row : v = .set given ∨ v = .list given) (nonempty : given ≠ []) (p : Path) :
    encodeAt p (.set of) v = encodeMembers p of given := by
  have full : given.isEmpty = false := by simpa using nonempty
  rcases row with rfl | rfl <;> simp [encodeAt, encodeFlat, encodeSet, full]

/-- A set keeps the first of each member, compared in the form in which members are stored, and is
read and stored again as it is; with a member of another type it is not stored at all. -/
theorem encodeAt_set_keepsFirst (p : Path) (of : SetType) (row : v = .set given ∨ v = .list given)
    (nonempty : given ≠ []) :
    encodeAt p (.set of) v =
      (fun members => of.collect (distinctBy Wire.memberKey [] members)) <$>
        given.mapM (encodeMember p of) ∧
    ((∀ u ∈ given, of.owns u = true) →
      ∃ w kept, encodeAt p (.set of) v = .ok w ∧ kept ≠ [] ∧
        KeepsFirst Value.sameMember given kept ∧ of.Holds kept w ∧
        (∀ d q, decodeAt d q (.set of) (some w) =
          .ok (some (.set (kept.map Value.dropZeroSigns)))) ∧
        ((∀ n, .number n ∈ given → Decimal.ofText? n.toText = some n) →
          kept.map Value.dropZeroSigns = kept ∧ ∀ q, encodeAt q (.set of) (.set kept) = .ok w)) ∧
    ∀ u ∈ given, of.owns u = false →
      ∃ first, given.find? (fun u => !of.owns u) = some first ∧
        encodeAt p (.set of) v =
          .error (.typeMismatch (.path p) (.setElement of) (.kind first.kind)) := by
  simp only [encodeAt_set row nonempty]
  refine ⟨encodeMembers_eq_collect p of given, fun owned => ?_, fun u member foreign => ?_⟩
  · obtain ⟨w, encoded⟩ := encodeMembers_owned owned p
    obtain ⟨kept, keeps, holds⟩ := encodeMembers_keepsFirst encoded
    have full := keeps.ne_nil nonempty
    refine ⟨w, kept, encoded, full, keeps, holds, holds.decodeAt, fun undone => ⟨?_, fun q => ?_⟩⟩
    · rw [← Value.dropItemSigns_eq_map, Value.dropItemSigns_eq_self]
      intro v member
      have inside := keeps.mem member
      exact dropZeroSigns_member undone inside (owned v inside)
    · rw [encodeAt_set (.inl rfl) full]
      exact holds.encodeMembers keeps.apart q
  · have present : (given.find? fun u => !of.owns u).isSome = true :=
      List.find?_isSome.mpr ⟨u, member, by simp [foreign]⟩
    obtain ⟨first, found⟩ := Option.isSome_iff_exists.mp present
    exact ⟨first, found, encodeMembers_foreign found p⟩

end

namespace Orchard

/-- The yields of four trees, of which only the third is another number. -/
def yields : List Value :=
  [.number ⟨false, 1500000000, 9, by decide, by decide⟩,
    .number ⟨false, 15000000000, 10, by decide, by decide⟩,
    .number ⟨false, 250000000000, 11, by decide, by decide⟩,
    .number ⟨false, 1500000000000, 12, by decide, by decide⟩]

def stored : Wire :=
  .ns ["1.500000000", "2.50000000000"]

theorem yields_kept :
    encodeAt [] (.set .number) (.list yields) = .ok stored ∧
    (∃ kept, KeepsFirst Value.sameMember yields kept ∧
      decodeAt .whole [] (.set .number) (some stored) = .ok (some (.set kept)) ∧
      encodeAt [] (.set .number) (.set kept) = .ok stored) ∧
    encodeAt [] (.set .number) (.set (yields ++ [.string "3", .null])) =
      .error (.typeMismatch (.path []) (.setElement .number) (.kind .string)) := by
  have full : yields ≠ [] := List.cons_ne_nil _ _
  have fuller : yields ++ [.string "3", .null] ≠ [] := List.append_ne_nil_of_left_ne_nil full _
  obtain ⟨_, kept, _⟩ := encodeAt_set_keepsFirst [] .number (.inr rfl) full
  obtain ⟨_, _, foreign⟩ := encodeAt_set_keepsFirst [] .number (.inl rfl) fuller
  have encodes : encodeAt [] (.set .number) (.list yields) = .ok stored := by rfl
  have owned : ∀ u ∈ yields, SetType.number.owns u = true := by simp [yields, SetType.owns]
  have undone : ∀ n, .number n ∈ yields → Decimal.ofText? n.toText = some n := by
    intro n member
    simp only [yields, List.mem_cons, Value.number.injEq, List.not_mem_nil, or_false] at member
    rcases member with rfl | rfl | rfl | rfl <;> exact Decimal.ofText?_toText _
  obtain ⟨w, kept, encoded, _, keeps, _, read, again⟩ := kept owned
  obtain rfl : w = stored := Except.ok.inj (encoded.symm.trans encodes)
  obtain ⟨unsigned, again⟩ := again undone
  refine ⟨encodes, ⟨kept, keeps, ?_, again []⟩, ?_⟩
  · rw [read, unsigned]
  · obtain ⟨first, found, failed⟩ := foreign (.string "3") (by simp) rfl
    cases found
    exact failed

end Orchard

end ItemSchema
