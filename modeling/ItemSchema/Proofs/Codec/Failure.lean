import ItemSchema.Proofs.Codec.Conformance
import ItemSchema.Proofs.Codec.Lenience

/-! How encoding and decoding fail, one level at a time: at a node itself, or at the first of the
nodes below it that fails. -/
namespace ItemSchema

/-- What is found wrong with a value itself. -/
inductive EncodeFault (p : Path) : Error → Prop where
  | mismatch (expected : Expectation) (found : Found) :
    EncodeFault p (.typeMismatch (.path p) expected found)
  | emptySet : EncodeFault p (.invalidOperand (.path p) .emptySet)

/-- The ways in which the value at a path can fail to be encoded. -/
inductive EncodeError (p : Path) : Attribute → Value → Error → Prop where
  | node (flat : ∀ schema fields, a = .map schema → v ≠ .map fields) (fault : EncodeFault p e) :
    EncodeError p a v e
  | bare (v : Value) : EncodeError p (.list none) v (.missingItemSchema p)
  | item {items : List Value} {n : Nat} (found : items[n]? = some u)
    (fails : encodeAt (p ++ [.index n]) item u = .error e)
    (before : ∀ m < n, ∀ x, items[m]? = some x →
      ∃ w, encodeAt (p ++ [.index m]) item x = .ok w) :
    EncodeError p (.list (some item)) (.list items) e
  | unknown {schema : Schema} (unknown : schema.get? name = none)
    (before : ∀ field ∈ front, ∃ b w, schema.get? field.1 = some b ∧
      encodeAt (p ++ [.field field.1]) b field.2 = .ok w) :
    EncodeError p (.map schema) (.map (front ++ (name, u) :: back))
      (.unknownField (.path p) name)
  | field {schema : Schema} (found : schema.get? name = some a)
    (fails : encodeAt (p ++ [.field name]) a u = .error e)
    (before : ∀ field ∈ front, ∃ b w, schema.get? field.1 = some b ∧
      encodeAt (p ++ [.field field.1]) b field.2 = .ok w) :
    EncodeError p (.map schema) (.map (front ++ (name, u) :: back)) e

theorem encodeDate_fault (failed : encodeDate p t = .error e) : EncodeFault p e := by
  unfold encodeDate at failed
  split at failed
  · contradiction
  · cases failed
    exact .mismatch _ _

theorem encodeScalar_fault (failed : encodeScalar p of v = .error e) : EncodeFault p e := by
  unfold encodeScalar at failed
  split at failed
  case h_5 => exact encodeDate_fault failed
  case h_6 =>
    split at failed
    · exact encodeDate_fault failed
    · cases failed
      exact .mismatch _ _
  case h_7 =>
    cases failed
    exact .mismatch _ _
  all_goals contradiction

theorem member_fault (failed : stringMember p v = .error e ∨ numberMember p v = .error e ∨
    binaryMember p v = .error e) : EncodeFault p e := by
  rcases failed with wrong | wrong | wrong <;> cases v <;> cases wrong <;> exact .mismatch _ _

theorem encodeMember_fault (failed : encodeMember p of v = .error e) : EncodeFault p e := by
  cases of with
  | string => exact member_fault (.inl (map_eq_error.mp failed))
  | number => exact member_fault (.inr (.inl (map_eq_error.mp failed)))
  | binary => exact member_fault (.inr (.inr (map_eq_error.mp failed)))

theorem encodeMembers_fault (failed : encodeMembers p of members = .error e) :
    EncodeFault p e := by
  cases of with
  | string | number | binary =>
    simp only [encodeMembers, bind_eq_error, except_pure, reduceCtorEq, and_false, exists_false,
      or_false] at failed
    obtain ⟨u, _, wrong⟩ := mapM_eq_error failed
    first
      | exact member_fault (.inl wrong)
      | exact member_fault (.inr (.inl wrong))
      | exact member_fault (.inr (.inr wrong))

theorem encodeSet_fault (failed : encodeSet p of v = .error e) : EncodeFault p e := by
  unfold encodeSet at failed
  split at failed
  case h_3 =>
    cases failed
    exact .mismatch _ _
  all_goals
    split at failed
    · cases failed
      exact .emptySet
    · exact encodeMembers_fault failed

/-- The first item that fails. -/
theorem encodeItems_eq_error (failed : encodeItems p item index items = .error e) :
    ∃ n u, items[n]? = some u ∧ encodeAt (p ++ [.index (index + n)]) item u = .error e ∧
      ∀ m < n, ∀ x, items[m]? = some x →
        ∃ w, encodeAt (p ++ [.index (index + m)]) item x = .ok w := by
  induction items generalizing index with
  | nil => contradiction
  | cons v rest ih =>
    rw [encodeItems, bind_eq_error] at failed
    rcases failed with here | ⟨w, first, others⟩
    · exact ⟨0, v, rfl, here, by simp⟩
    · rcases bind_eq_error.mp others with behind | ⟨ws, _, kept⟩
      · obtain ⟨n, u, found, fails, before⟩ := ih behind
        rw [Nat.add_right_comm] at fails
        refine ⟨n + 1, u, found, fails, ?_⟩
        intro m less x present
        cases m with
        | zero =>
          cases present
          exact ⟨w, first⟩
        | succ m =>
          obtain ⟨x, encoded⟩ := before m (Nat.lt_of_succ_lt_succ less) x present
          rw [Nat.add_right_comm] at encoded
          exact ⟨x, encoded⟩
      · contradiction

/-- The first field that fails or that the schema does not know. -/
theorem encodeFields_eq_error {schema : Schema}
    (failed : encodeFields p schema fields = .error e) :
    ∃ front name u back, fields = front ++ (name, u) :: back ∧
      ((schema.get? name = none ∧ e = .unknownField (.path p) name) ∨
        ∃ a, schema.get? name = some a ∧ encodeAt (p ++ [.field name]) a u = .error e) ∧
      ∀ field ∈ front, ∃ b w, schema.get? field.1 = some b ∧
        encodeAt (p ++ [.field field.1]) b field.2 = .ok w := by
  induction fields with
  | nil => contradiction
  | cons field rest ih =>
    obtain ⟨name, v⟩ := field
    rw [encodeFields] at failed
    cases found : schema.get? name with
    | none =>
      simp only [found, except_throw, Except.error.injEq] at failed
      exact ⟨[], name, v, rest, rfl, .inl ⟨found, failed.symm⟩, by simp⟩
    | some a =>
      simp only [found] at failed
      rcases bind_eq_error.mp failed with here | ⟨w, first, others⟩
      · exact ⟨[], name, v, rest, rfl, .inr ⟨a, found, here⟩, by simp⟩
      · rcases bind_eq_error.mp others with behind | ⟨entries, _, kept⟩
        · obtain ⟨front, other, u, back, rfl, fails, before⟩ := ih behind
          exact ⟨(name, v) :: front, other, u, back, rfl, fails,
            List.forall_mem_cons.mpr ⟨⟨a, w, found, first⟩, before⟩⟩
        · contradiction

theorem encodeError_of_error {a : Attribute} (failed : encodeAt p a v = .error e) :
    EncodeError p a v e := by
  unfold encodeAt at failed
  split at failed
  · cases failed
    exact .node (by simp) (.mismatch _ _)
  · cases failed
    exact .node (by simp) (.mismatch _ _)
  · contradiction
  · obtain ⟨n, u, found, fails, before⟩ := encodeItems_eq_error (map_eq_error.mp failed)
    simp only [Nat.zero_add] at fails before
    exact .item found fails before
  · obtain ⟨front, name, u, back, rfl, node | ⟨a, found, fails⟩, before⟩ :=
      encodeFields_eq_error (map_eq_error.mp failed)
    · obtain ⟨unknown, rfl⟩ := node
      exact .unknown unknown before
    · exact .field found fails before
  · rename_i notMap
    have flat : ∀ schema fields, a = .map schema → v ≠ .map fields :=
      fun schema fields isMap given => notMap fields schema given isMap
    cases a with
    | partitionKey | sortKey | scalar => exact .node flat (encodeScalar_fault failed)
    | set of => exact .node flat (encodeSet_fault failed)
    | list items =>
      cases items with
      | none =>
        cases failed
        exact .bare v
      | some item =>
        cases failed
        exact .node flat (.mismatch _ _)
    | map schema =>
      cases failed
      exact .node flat (.mismatch _ _)

/-- What is found wrong with a wire value itself, where a tag is expected. -/
inductive DecodeFault (p : Path) (expected : WireTag) (w : Wire) : Error → Prop where
  | tag (other : w.tag ≠ expected) : DecodeFault p expected w (.tagMismatch p expected w.tag)
  | range (number : String) : DecodeFault p expected w (.numberOutOfRange p number)
  | text (expectation : Expectation) (text : String) :
    DecodeFault p expected w (.typeMismatch (.path p) expectation (.text text))

/-- The ways in which the wire value at a path can fail to be decoded. -/
inductive DecodeError (d : Decoding) (p : Path) : Attribute → Wire → Error → Prop where
  | node (closed : a.opens w = false) (fault : DecodeFault p a.tag w e) : DecodeError d p a w e
  | bare (items : List Wire) : DecodeError d p (.list none) (.l items) (.missingItemSchema p)
  | item {items : List Wire} {n : Nat} (found : items[n]? = some x)
    (fails : decodeAt d (p ++ [.index n]) item (some x) = .error e)
    (before : ∀ m < n, ∀ y, items[m]? = some y →
      ∃ v, decodeAt d (p ++ [.index m]) item (some y) = .ok v) :
    DecodeError d p (.list (some item)) (.l items) e
  | field (fails : decodeAt d (p ++ [.field name]) a (Record.find? name entries) = .error e)
    (before : ∀ field ∈ front, ∃ v, decodeAt d (p ++ [.field field.1]) field.2
      (Record.find? field.1 entries) = .ok v) :
    DecodeError d p (.map (front ++ (name, a) :: back)) (.m entries) e

theorem decodeMismatch_fault (other : w.tag ≠ expected)
    (failed : decodeMismatch mode p expected w = .error e) : DecodeFault p expected w e := by
  cases mode with
  | strict =>
    cases failed
    exact .tag other
  | lenient => contradiction

theorem decodeUnfit_fault (failed : decodeUnfit mode p of number = .error e) :
    DecodeFault p expected w e := by
  unfold decodeUnfit at failed
  split at failed
  · cases mode with
    | strict =>
      cases failed
      exact .range number
    | lenient => contradiction
  · cases failed
    exact .text _ _

theorem decodeNumber_fault (failed : decodeNumber mode p number = .error e) :
    DecodeFault p expected w e := by
  unfold decodeNumber at failed
  split at failed
  · contradiction
  · exact decodeUnfit_fault failed

theorem decodeScalar_fault (failed : decodeScalar mode p of w = .error e) :
    DecodeFault p of.tag w e := by
  unfold decodeScalar at failed
  split at failed
  case h_2 => exact decodeNumber_fault failed
  case h_3 =>
    split at failed
    · contradiction
    · exact decodeUnfit_fault failed
  case h_5 =>
    split at failed
    · contradiction
    · cases failed
      exact .text _ _
  case h_1 | h_4 => contradiction
  all_goals
    refine decodeMismatch_fault ?_ failed
    cases w <;> simp_all [Wire.tag, ScalarType.tag]

theorem decodeSet_fault (failed : decodeSet mode p of w = .error e) :
    DecodeFault p of.tag w e := by
  unfold decodeSet at failed
  split at failed
  case h_2 numbers =>
    obtain ⟨number, _, fails⟩ := mapM_eq_error (map_eq_error.mp failed)
    exact decodeNumber_fault fails
  case h_1 | h_3 => contradiction
  all_goals
    refine decodeMismatch_fault ?_ failed
    cases w <;> simp_all [Wire.tag, SetType.tag]

theorem decodeError_of_error {a : Attribute} (failed : decodeAt d p a (some w) = .error e) :
    DecodeError d p a w e := by
  obtain ⟨_, given, present⟩ := decodeAt_error_present failed
  cases given
  cases a with
  | partitionKey key | sortKey key | scalar key =>
    rw [decodeAt_scalar rfl present, map_eq_error] at failed
    exact .node rfl (decodeScalar_fault failed)
  | set of =>
    rw [decodeAt_set present, map_eq_error] at failed
    exact .node rfl (decodeSet_fault failed)
  | list items =>
    cases w with
    | null => contradiction
    | l ws =>
      cases items with
      | none =>
        cases failed
        exact .bare ws
      | some item =>
        rw [decodeAt, map_eq_error] at failed
        obtain ⟨n, x, found, fails, before⟩ := decodeItems_eq_error failed
        simp only [Nat.zero_add] at fails before
        exact .item found fails before
    | _ =>
      have other := map_eq_error.mp (failed : some <$> decodeMismatch d.mode p .l _ = _)
      refine .node ?_ (decodeMismatch_fault (by simp [Wire.tag, Attribute.tag]) other)
      cases items <;> rfl
  | map schema =>
    cases w with
    | null => contradiction
    | m entries =>
      rw [decodeAt, bind_eq_error] at failed
      rcases failed with fails | ⟨_, _, kept⟩
      · obtain ⟨front, name, a, back, rfl, fails, before⟩ := decodeFields_eq_error fails
        exact .field fails before
      · contradiction
    | _ =>
      have other := map_eq_error.mp (failed : some <$> decodeMismatch d.mode p .m _ = _)
      exact .node rfl (decodeMismatch_fault (by simp [Wire.tag, Attribute.tag]) other)

end ItemSchema
