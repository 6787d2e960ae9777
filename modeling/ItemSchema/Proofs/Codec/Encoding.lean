import ItemSchema.Codec.Encoding
import ItemSchema.Proofs.Except
import ItemSchema.Proofs.Record

/-! What a successful encoding tells about the value and its attribute, one level at a time. -/
namespace ItemSchema

theorem stringMember_ok_iff : stringMember p v = .ok s ↔ v = .string s := by
  cases v <;> simp [stringMember, mismatch]

theorem numberMember_ok_iff : numberMember p v = .ok d ↔ v = .number d := by
  cases v <;> simp [numberMember, mismatch]

theorem binaryMember_ok_iff : binaryMember p v = .ok bytes ↔ v = .binary bytes := by
  cases v <;> simp [binaryMember, mismatch]

/-- The members of a set that is encoded are all of its type, and the first of each is kept. -/
theorem encodeMembers_ok_iff : encodeMembers p of members = .ok w ↔
    match of with
    | .string => ∃ texts : List String, members = texts.map .string ∧
        .ss (distinctBy id [] texts) = w
    | .number => ∃ numbers : List Decimal, members = numbers.map .number ∧
        .ns ((distinctBy Decimal.normalize [] numbers).map Decimal.toText) = w
    | .binary => ∃ binaries : List (List UInt8), members = binaries.map .binary ∧
        .bs (distinctBy id [] binaries) = w := by
  cases of with
  | string => simp [encodeMembers, mapM_eq_ok_iff fun _ _ => stringMember_ok_iff]
  | number => simp [encodeMembers, mapM_eq_ok_iff fun _ _ => numberMember_ok_iff]
  | binary => simp [encodeMembers, mapM_eq_ok_iff fun _ _ => binaryMember_ok_iff]

theorem encodeSet_ok_iff : encodeSet p of v = .ok w ↔
    ∃ members, (v = .set members ∨ v = .list members) ∧ members ≠ [] ∧
      encodeMembers p of members = .ok w := by
  cases v with
  | set members | list members =>
    cases members <;> simp [encodeSet]
  | _ => simp [encodeSet, mismatch]

/-- The ways in which a value can be encoded at a path. -/
inductive EncodesTo (p : Path) : Attribute → Value → Wire → Prop where
  | null (notKey : a.isKey = false) : EncodesTo p a .null .null
  | list (items : encodeItems p item 0 values = .ok ws) :
      EncodesTo p (.list (some item)) (.list values) (.l ws)
  | map (entries : encodeFields p schema fields = .ok ws) :
      EncodesTo p (.map schema) (.map fields) (.m ws)
  | scalar (typed : a.kind.scalarType? = some of) (content : encodeScalar p of v = .ok w) :
      EncodesTo p a v w
  | set (members : encodeSet p of v = .ok w) : EncodesTo p (.set of) v w

theorem encodesTo_of_ok (encoded : encodeAt p a v = .ok w) : EncodesTo p a v w := by
  unfold encodeAt at encoded
  split at encoded
  · simp [mismatch] at encoded
  · simp [mismatch] at encoded
  · rename_i notPartition notSort
    cases encoded
    refine .null ?_
    cases a with
    | partitionKey of => exact (notPartition of rfl).elim
    | sortKey of => exact (notSort of rfl).elim
    | _ => rfl
  · obtain ⟨ws, items, rfl⟩ := map_eq_ok.mp encoded
    exact .list items
  · obtain ⟨ws, entries, rfl⟩ := map_eq_ok.mp encoded
    exact .map entries
  · cases a with
    | partitionKey of | sortKey of | scalar of => exact .scalar rfl encoded
    | set of => exact .set encoded
    | list items => cases items <;> simp [encodeFlat, mismatch] at encoded
    | map fields => simp [encodeFlat, mismatch] at encoded

/-- The entries of a map are its fields, each with the attribute of its name. -/
theorem find?_encodeFields (encoded : encodeFields p schema fields = .ok entries) (name : String) :
    match Record.find? name fields with
    | none => Record.find? name entries = none
    | some v => ∃ a w, schema.get? name = some a ∧
        encodeAt (p ++ [.field name]) a v = .ok w ∧ Record.find? name entries = some w := by
  induction fields generalizing entries with
  | nil =>
    cases encoded
    rfl
  | cons field rest ih =>
    obtain ⟨key, v⟩ := field
    rw [encodeFields] at encoded
    cases found : schema.get? key with
    | none => simp [found] at encoded
    | some a =>
      simp only [found, bind_eq_ok, except_pure, Except.ok.injEq] at encoded
      obtain ⟨w, here, others, later, rfl⟩ := encoded
      by_cases same : name = key
      · subst same
        simpa [Record.find?, found] using here
      · simpa [Record.find?, same] using ih later

theorem encodeFields_known (encoded : encodeFields p schema fields = .ok entries) :
    ∀ field ∈ fields, (schema.get? field.1).isSome = true := by
  induction fields generalizing entries with
  | nil => simp
  | cons field rest ih =>
    obtain ⟨key, v⟩ := field
    rw [encodeFields] at encoded
    cases found : schema.get? key with
    | none => simp [found] at encoded
    | some a =>
      simp only [found, bind_eq_ok, except_pure, Except.ok.injEq] at encoded
      obtain ⟨w, here, others, later, rfl⟩ := encoded
      exact List.forall_mem_cons.mpr ⟨by simp [found], ih later⟩

end ItemSchema
