import ItemSchema.Proofs.Codec.Locality
import ItemSchema.Proofs.Codec.RoundTrip
import ItemSchema.Proofs.Schema.Descent

/-! Lenient decoding. It gives what strict decoding gives, wherever that gives something, and what
it cannot read are only numbers and dates that are none. -/
namespace ItemSchema

theorem decodeMismatch_refinedBy (p : Path) (expected : WireTag) (w : Wire) :
    RefinedBy (decodeMismatch .strict p expected w) (decodeMismatch .lenient p expected w) :=
  .error _ _

theorem decodeUnfit_refinedBy (p : Path) (of : ScalarType) (number : String) :
    RefinedBy (decodeUnfit .strict p of number) (decodeUnfit .lenient p of number) := by
  unfold decodeUnfit
  split
  · exact .error _ _
  · exact .refl _

theorem decodeNumber_refinedBy (p : Path) (number : String) :
    RefinedBy (decodeNumber .strict p number) (decodeNumber .lenient p number) := by
  unfold decodeNumber
  split
  · exact .refl _
  · exact decodeUnfit_refinedBy p .number number

theorem decodeScalar_refinedBy (p : Path) (of : ScalarType) (w : Wire) :
    RefinedBy (decodeScalar .strict p of w) (decodeScalar .lenient p of w) := by
  unfold decodeScalar
  split
  case h_2 number => exact decodeNumber_refinedBy p number
  case h_3 number =>
    split
    · exact .refl _
    · exact decodeUnfit_refinedBy p .bigint number
  case h_1 | h_4 | h_5 => exact .refl _
  all_goals exact decodeMismatch_refinedBy p _ w

theorem decodeSet_refinedBy (p : Path) (of : SetType) (w : Wire) :
    RefinedBy (decodeSet .strict p of w) (decodeSet .lenient p of w) := by
  unfold decodeSet
  split
  case h_2 numbers => exact (RefinedBy.mapM (decodeNumber_refinedBy p) numbers).map _
  case h_1 | h_3 => exact .refl _
  all_goals exact decodeMismatch_refinedBy p _ w

theorem decodeItems_refinedBy {strict lenient : Nat → Wire → Except Error (Option Value)}
    (each : ∀ i w, RefinedBy (strict i w) (lenient i w)) (start : Nat) (ws : List Wire) :
    RefinedBy (decodeItems strict start ws) (decodeItems lenient start ws) := by
  induction ws generalizing start with
  | nil => exact .refl _
  | cons w rest ih =>
    rw [decodeItems, decodeItems]
    exact (each start w).bind fun v => (ih (start + 1)).bind fun vs => .refl _

theorem decodeFields_refinedBy {strict lenient : Decoding} {schema : Schema}
    (each : ∀ field ∈ schema, ∀ p w,
      RefinedBy (decodeAt strict p field.2 w) (decodeAt lenient p field.2 w))
    (p : Path) (entries : List (String × Wire)) :
    RefinedBy (decodeFields strict p entries schema) (decodeFields lenient p entries schema) := by
  induction schema with
  | nil => exact .refl _
  | cons field rest ih =>
    obtain ⟨name, a⟩ := field
    obtain ⟨here, behind⟩ := List.forall_mem_cons.mp each
    rw [decodeFields, decodeFields]
    exact (here _ _).bind fun v => (ih behind).bind fun fields => .refl _

theorem decodeAt_set (present : w.tag ≠ .null) (d : Decoding) (p : Path) (of : SetType) :
    decodeAt d p (.set of) (some w) = some <$> decodeSet d.mode p of w := by
  cases w with
  | null => contradiction
  | _ => rfl

/-- What is absent and what is null decode alike in both modes. -/
theorem decodeAt_refinedBy_of_present {a : Attribute}
    (present : ∀ p w, w.tag ≠ .null → RefinedBy (decodeAt ⟨.strict, fill⟩ p a (some w))
      (decodeAt ⟨.lenient, fill⟩ p a (some w))) (p : Path) (w : Option Wire) :
    RefinedBy (decodeAt ⟨.strict, fill⟩ p a w) (decodeAt ⟨.lenient, fill⟩ p a w) := by
  cases w with
  | none =>
    rw [decodeAt, decodeAt]
    exact .refl _
  | some w =>
    by_cases tagged : w.tag = .null
    · cases w with
      | null =>
        rw [decodeAt, decodeAt]
        exact .refl _
      | _ => contradiction
    · exact present p w tagged

/-- The modes differ only where strict decoding fails. -/
theorem decodeAt_refinedBy (fill : Bool) (p : Path) (a : Attribute) (w : Option Wire) :
    RefinedBy (decodeAt ⟨.strict, fill⟩ p a w) (decodeAt ⟨.lenient, fill⟩ p a w) := by
  induction a using Attribute.below_induction generalizing p w with
  | scalar a of typed =>
    apply decodeAt_refinedBy_of_present
    intro p w present
    rw [decodeAt_scalar typed present, decodeAt_scalar typed present]
    exact (decodeScalar_refinedBy p of w).map some
  | set of =>
    apply decodeAt_refinedBy_of_present
    intro p w present
    rw [decodeAt_set present, decodeAt_set present]
    exact (decodeSet_refinedBy p of w).map some
  | bare =>
    apply decodeAt_refinedBy_of_present
    intro p w present
    cases w with
    | null => contradiction
    | l items => exact .refl _
    | _ => exact (decodeMismatch_refinedBy p .l _).map some
  | list item ih =>
    apply decodeAt_refinedBy_of_present
    intro p w present
    cases w with
    | null => contradiction
    | l items =>
      rw [decodeAt, decodeAt]
      exact (decodeItems_refinedBy (fun i w => ih _ (some w)) 0 items).map _
    | _ => exact (decodeMismatch_refinedBy p .l _).map some
  | map fields ih =>
    apply decodeAt_refinedBy_of_present
    intro p w present
    cases w with
    | null => contradiction
    | m entries =>
      rw [decodeAt, decodeAt]
      exact (decodeFields_refinedBy ih p entries).bind fun fields => .refl _
    | _ => exact (decodeMismatch_refinedBy p .m _).map some

/-- Texts that denote no value of a type, each with what should have been there. -/
inductive ScalarType.Unreadable : ScalarType → Wire → Expectation → String → Prop where
  | number (noNumber : Numeral.isStoreNumber text = false) :
    Unreadable .number (.n text) (.scalar .number) text
  | bigint (noNumber : Numeral.isStoreNumber text = false) :
    Unreadable .bigint (.n text) (.scalar .bigint) text
  | date (noInstant : Instant.ofText? text = none) : Unreadable .date (.s text) .timestamp text

inductive Attribute.Unreadable : Attribute → Wire → Expectation → String → Prop where
  | scalar (typed : a.kind.scalarType? = some of) (unreadable : of.Unreadable w expected text) :
    Unreadable a w expected text
  | member (among : text ∈ numbers) (noNumber : Numeral.isStoreNumber text = false) :
    Unreadable (.set .number) (.ns numbers) (.scalar .number) text

/-- What can go wrong in lenient decoding, and below which attribute: a list whose items have no
attribute, or a text that cannot be read. -/
inductive LenientError (q : Path) (a : Attribute) (w : Wire) : Error → Prop where
  | bare (leads : a.Leads p (.list none)) (held : w.at? p = some (.l items)) :
    LenientError q a w (.missingItemSchema (q ++ p))
  | unreadable (leads : a.Leads p b) (held : w.at? p = some x)
    (unreadable : b.Unreadable x expected text) :
    LenientError q a w (.typeMismatch (.path (q ++ p)) expected (.text text))

namespace LenientError

theorem field (member : (name, a) ∈ fields) (found : Record.find? name entries = some x)
    (error : LenientError (q ++ [.field name]) a x e) :
    LenientError q (.map fields) (.m entries) e := by
  have held : ∀ p, (Wire.m entries).at? (.field name :: p) = x.at? p := by
    intro p
    rw [Wire.at?, found, Option.bind_some]
  cases error with
  | bare leads inside =>
    rw [List.append_assoc]
    exact .bare (.field member leads) ((held _).trans inside)
  | unreadable leads inside unreadable =>
    rw [List.append_assoc]
    exact .unreadable (.field member leads) ((held _).trans inside) unreadable

theorem index (found : items[n]? = some x) (error : LenientError (q ++ [.index n]) item x e) :
    LenientError q (.list (some item)) (.l items) e := by
  have held : ∀ p, (Wire.l items).at? (.index n :: p) = x.at? p := by
    intro p
    rw [Wire.at?, found, Option.bind_some]
  cases error with
  | bare leads inside =>
    rw [List.append_assoc]
    exact .bare (.index n leads) ((held _).trans inside)
  | unreadable leads inside unreadable =>
    rw [List.append_assoc]
    exact .unreadable (.index n leads) ((held _).trans inside) unreadable

theorem root {a : Attribute} (unreadable : a.Unreadable w expected text) :
    LenientError q a w (.typeMismatch (.path q) expected (.text text)) := by
  have error := LenientError.unreadable (q := q) (.here a) rfl unreadable
  rwa [List.append_nil] at error

end LenientError

theorem decodeUnfit_lenient_error (failed : decodeUnfit .lenient p of number = .error e) :
    Numeral.isStoreNumber number = false ∧
      e = .typeMismatch (.path p) (.scalar of) (.text number) := by
  unfold decodeUnfit at failed
  split at failed
  · contradiction
  · rename_i noNumber
    cases failed
    exact ⟨Bool.eq_false_of_not_eq_true noNumber, rfl⟩

theorem decodeNumber_lenient_error (failed : decodeNumber .lenient p number = .error e) :
    Numeral.isStoreNumber number = false ∧
      e = .typeMismatch (.path p) (.scalar .number) (.text number) := by
  unfold decodeNumber at failed
  split at failed
  · contradiction
  · exact decodeUnfit_lenient_error failed

theorem decodeScalar_lenient_error (failed : decodeScalar .lenient p of w = .error e) :
    ∃ expected text, of.Unreadable w expected text ∧
      e = .typeMismatch (.path p) expected (.text text) := by
  unfold decodeScalar at failed
  split at failed
  case h_2 number =>
    obtain ⟨noNumber, same⟩ := decodeNumber_lenient_error failed
    exact ⟨_, number, .number noNumber, same⟩
  case h_3 number =>
    split at failed
    · contradiction
    · obtain ⟨noNumber, same⟩ := decodeUnfit_lenient_error failed
      exact ⟨_, number, .bigint noNumber, same⟩
  case h_5 text =>
    split at failed
    · contradiction
    · rename_i noInstant
      cases failed
      exact ⟨_, text, .date noInstant, rfl⟩
  all_goals contradiction

theorem decodeSet_lenient_error (failed : decodeSet .lenient p of w = .error e) :
    ∃ expected text, (Attribute.set of).Unreadable w expected text ∧
      e = .typeMismatch (.path p) expected (.text text) := by
  unfold decodeSet at failed
  split at failed
  case h_2 numbers =>
    obtain ⟨number, among, fails⟩ := mapM_eq_error (map_eq_error.mp failed)
    obtain ⟨noNumber, same⟩ := decodeNumber_lenient_error fails
    exact ⟨_, number, .member among noNumber, same⟩
  all_goals contradiction

/-- The first item that fails. -/
theorem decodeItems_eq_error {decode : Nat → Wire → Except Error (Option Value)}
    (failed : decodeItems decode start ws = .error e) :
    ∃ n w, ws[n]? = some w ∧ decode (start + n) w = .error e ∧
      ∀ m < n, ∀ x, ws[m]? = some x → ∃ v, decode (start + m) x = .ok v := by
  induction ws generalizing start with
  | nil => contradiction
  | cons w rest ih =>
    rw [decodeItems, bind_eq_error] at failed
    rcases failed with here | ⟨v, first, others⟩
    · exact ⟨0, w, rfl, here, by simp⟩
    · rcases bind_eq_error.mp others with behind | ⟨vs, _, kept⟩
      · obtain ⟨n, x, found, fails, before⟩ := ih behind
        rw [Nat.add_right_comm] at fails
        refine ⟨n + 1, x, found, fails, ?_⟩
        intro m less y present
        cases m with
        | zero =>
          cases present
          exact ⟨v, first⟩
        | succ m =>
          obtain ⟨u, decoded⟩ := before m (Nat.lt_of_succ_lt_succ less) y present
          rw [Nat.add_right_comm] at decoded
          exact ⟨u, decoded⟩
      · contradiction

/-- The first attribute of the schema that fails. -/
theorem decodeFields_eq_error {schema : Schema}
    (failed : decodeFields d p entries schema = .error e) :
    ∃ front name a back, schema = front ++ (name, a) :: back ∧
      decodeAt d (p ++ [.field name]) a (Record.find? name entries) = .error e ∧
      ∀ field ∈ front, ∃ v, decodeAt d (p ++ [.field field.1]) field.2
        (Record.find? field.1 entries) = .ok v := by
  induction schema with
  | nil => contradiction
  | cons field rest ih =>
    obtain ⟨name, a⟩ := field
    rw [decodeFields, bind_eq_error] at failed
    rcases failed with here | ⟨v, first, others⟩
    · exact ⟨[], name, a, rest, rfl, here, by simp⟩
    · rcases bind_eq_error.mp others with behind | ⟨fields, _, kept⟩
      · obtain ⟨front, other, b, back, rfl, fails, before⟩ := ih behind
        exact ⟨(name, a) :: front, other, b, back, rfl, fails,
          List.forall_mem_cons.mpr ⟨⟨v, first⟩, before⟩⟩
      · contradiction

theorem decodeAt_error_present (failed : decodeAt d p a w = .error e) :
    ∃ x, w = some x ∧ x.tag ≠ .null := by
  cases w with
  | none =>
    rw [decodeAt] at failed
    contradiction
  | some x =>
    refine ⟨x, rfl, ?_⟩
    intro tagged
    cases x with
    | null =>
      rw [decodeAt] at failed
      contradiction
    | _ => contradiction

theorem decodeAt_lenient_error (failed : decodeAt ⟨.lenient, fill⟩ q a w = .error e) :
    ∃ x, w = some x ∧ LenientError q a x e := by
  -- Each way down puts one segment in front of the way to the node that failed.
  induction a using Attribute.below_induction generalizing q w with
  | scalar a of typed =>
    obtain ⟨x, rfl, present⟩ := decodeAt_error_present failed
    rw [decodeAt_scalar typed present, map_eq_error] at failed
    obtain ⟨expected, text, unreadable, rfl⟩ := decodeScalar_lenient_error failed
    exact ⟨x, rfl, .root (.scalar typed unreadable)⟩
  | set of =>
    obtain ⟨x, rfl, present⟩ := decodeAt_error_present failed
    rw [decodeAt_set present, map_eq_error] at failed
    obtain ⟨expected, text, unreadable, rfl⟩ := decodeSet_lenient_error failed
    exact ⟨x, rfl, .root unreadable⟩
  | bare =>
    obtain ⟨x, rfl, present⟩ := decodeAt_error_present failed
    cases x with
    | l items =>
      cases failed
      have held : (Wire.l items).at? [] = some (.l items) := rfl
      have error := LenientError.bare (q := q) (.here (.list none)) held
      rw [List.append_nil] at error
      exact ⟨_, rfl, error⟩
    | _ => contradiction
  | list item ih =>
    obtain ⟨x, rfl, present⟩ := decodeAt_error_present failed
    cases x with
    | l items =>
      rw [decodeAt, map_eq_error] at failed
      obtain ⟨n, w, found, fails, _⟩ := decodeItems_eq_error failed
      obtain ⟨_, same, error⟩ := ih fails
      cases same
      rw [Nat.zero_add] at error
      exact ⟨_, rfl, .index found error⟩
    | _ => contradiction
  | map fields ih =>
    obtain ⟨x, rfl, present⟩ := decodeAt_error_present failed
    cases x with
    | m entries =>
      rw [decodeAt, bind_eq_error] at failed
      rcases failed with fails | ⟨_, _, kept⟩
      · obtain ⟨front, name, a, back, rfl, fails, _⟩ := decodeFields_eq_error fails
        have member : (name, a) ∈ front ++ (name, a) :: back := by simp
        obtain ⟨x, found, error⟩ := ih _ member fails
        exact ⟨_, rfl, .field member found error⟩
      · contradiction
    | _ => contradiction

theorem Schema.decodeWith_refinedBy (schema : Schema) (fill : Bool) (item : Item) :
    RefinedBy (schema.decodeWith ⟨.strict, fill⟩ item) (schema.decodeWith ⟨.lenient, fill⟩ item) :=
  (decodeFields_refinedBy (fun field _ p w => decodeAt_refinedBy fill p field.2 w) [] item).bind
    fun _ => .refl _

/-- An item is decoded as a map with its schema. -/
theorem Schema.decodeAt_item (schema : Schema) (d : Decoding) (item : Item) :
    decodeAt d [] (.map schema) (some (.m item)) = some <$> schema.decodeWith d item := by
  rw [decodeAt, decodeWith]
  cases decodeFields d [] item schema <;> rfl

theorem Schema.decodeAt_of_decodeWith_error {schema : Schema}
    (failed : schema.decodeWith d item = .error e) :
    decodeAt d [] (.map schema) (some (.m item)) = .error e := by
  rw [decodeAt_item, failed]
  rfl

theorem Schema.decodeWith_lenient_error {schema : Schema}
    (failed : schema.decodeWith ⟨.lenient, fill⟩ item = .error e) :
    LenientError [] (.map schema) (.m item) e := by
  obtain ⟨_, same, error⟩ := decodeAt_lenient_error (decodeAt_of_decodeWith_error failed)
  cases same
  exact error

theorem LenientError.not_strict (error : LenientError q a w e) :
    (∀ p expected found, e ≠ .tagMismatch p expected found) ∧
      ∀ p number, e ≠ .numberOutOfRange p number := by
  cases error with
  | bare | unreadable => simp

/-- Lists that were accepted have the attribute of their items, so only texts are left. -/
theorem LenientError.of_level {schema : Schema} (error : LenientError [] (.map schema) (.m item) e)
    (level : schema.Level true) :
    ∃ p a x expected text, schema.resolve p = .ok a ∧ (Wire.m item).at? p = some x ∧
      a.Unreadable x expected text ∧ e = .typeMismatch (.path p) expected (.text text) := by
  cases error with
  | @bare p items leads held =>
    have inside : p ≠ [] := by
      rintro rfl
      cases leads
    obtain ⟨_, sound⟩ := level.resolve_of_leads leads inside
    cases sound.resolve_left Bool.false_ne_true
  | @unreadable p a x expected text leads held unreadable =>
    have inside : p ≠ [] := by
      rintro rfl
      cases leads
      cases unreadable with
      | scalar typed => cases typed
    obtain ⟨resolved, _⟩ := level.resolve_of_leads leads inside
    exact ⟨p, a, x, expected, text, resolved, held, unreadable, rfl⟩

/-- Lenient decoding gives every value that strict decoding gives. It never complains about a tag or
about the range of a number; for items of a schema that was accepted it only fails at a text that is
no number or no date where there should be one. -/
theorem decode_lenient :
    (∀ (a : Attribute) (w : Option Wire),
        (∀ v, a.decode w .strict = .ok v → a.decode w .lenient = .ok v) ∧
          ∀ e, a.decode w .lenient = .error e →
            (∀ p expected found, e ≠ .tagMismatch p expected found) ∧
              (∀ p number, e ≠ .numberOutOfRange p number) ∧
              ∃ x, w = some x ∧ LenientError [] a x e) ∧
      ∀ (schema : Schema) (item : Item),
        (∀ v, schema.decodeItem item .strict = .ok v → schema.decodeItem item .lenient = .ok v) ∧
          (∀ v, schema.decodePartialItem item .strict = .ok v →
            schema.decodePartialItem item .lenient = .ok v) ∧
          ∀ e, schema.decodeItem item .lenient = .error e ∨
                schema.decodePartialItem item .lenient = .error e →
              (∀ p expected found, e ≠ .tagMismatch p expected found) ∧
                (∀ p number, e ≠ .numberOutOfRange p number) ∧
                LenientError [] (.map schema) (.m item) e ∧
                (schema.Accepted → ∃ p a x expected text, schema.resolve p = .ok a ∧
                  (Wire.m item).at? p = some x ∧ a.Unreadable x expected text ∧
                  e = .typeMismatch (.path p) expected (.text text)) := by
  constructor
  · intro a w
    refine ⟨decodeAt_refinedBy true [] a w, ?_⟩
    intro e failed
    obtain ⟨x, given, error⟩ := decodeAt_lenient_error failed
    exact ⟨error.not_strict.1, error.not_strict.2, x, given, error⟩
  · intro schema item
    refine ⟨schema.decodeWith_refinedBy true item, schema.decodeWith_refinedBy false item, ?_⟩
    intro e failed
    have error : LenientError [] (.map schema) (.m item) e := by
      rcases failed with whole | part
      · exact Schema.decodeWith_lenient_error whole
      · exact Schema.decodeWith_lenient_error part
    refine ⟨error.not_strict.1, error.not_strict.2, error, ?_⟩
    intro accepted
    exact error.of_level accepted.wellFormed.toLevel

namespace Sensor

def schema : Schema :=
  [("id", .partitionKey .string), ("checks", .list (some (.map [("at", .scalar .date)])))]

def dated : Item :=
  [("checks", .l [.m [("at", .s "2024-01-31T08:15:00Z")]]), ("id", .s "x")]

/-- The first check has a number in place of a date, the second one a date that is none. -/
def undated : Item :=
  [("checks", .l [.m [("at", .n "5")], .m [("at", .s "noon")]])]

theorem undated_lenient :
    (∃ v, schema.decodeItem dated .strict = .ok v ∧ schema.decodeItem dated .lenient = .ok v) ∧
      (∃ v, schema.decodePartialItem dated .strict = .ok v ∧
        schema.decodePartialItem dated .lenient = .ok v) ∧
      (Attribute.scalar .string).decode (some (.s "x")) .lenient = .ok (some (.string "x")) ∧
      (∃ e, (Attribute.scalar .date).decode (some (.s "noon")) .lenient = .error e ∧
        LenientError [] (.scalar .date) (.s "noon") e) ∧
      ∃ e, schema.decodePartialItem undated .lenient = .error e ∧
        ∃ p a x expected text, schema.resolve p = .ok a ∧ (Wire.m undated).at? p = some x ∧
          a.Unreadable x expected text ∧ e = .typeMismatch (.path p) expected (.text text) := by
  obtain ⟨alone, items⟩ := decode_lenient
  have accepted : schema.Accepted := .inr ⟨schema, rfl⟩
  refine ⟨?_, ?_, ?_, ?_, ?_⟩
  · obtain ⟨v, decoded⟩ : ∃ v, schema.decodeItem dated .strict = .ok v := ⟨_, rfl⟩
    exact ⟨v, decoded, (items schema dated).1 v decoded⟩
  · obtain ⟨v, decoded⟩ : ∃ v, schema.decodePartialItem dated .strict = .ok v := ⟨_, rfl⟩
    exact ⟨v, decoded, (items schema dated).2.1 v decoded⟩
  · exact (alone (.scalar .string) (some (.s "x"))).1 _ rfl
  · obtain ⟨e, failed⟩ :
        ∃ e, (Attribute.scalar .date).decode (some (.s "noon")) .lenient = .error e := ⟨_, rfl⟩
    obtain ⟨_, _, _, same, error⟩ := (alone _ _).2 e failed
    cases same
    exact ⟨e, failed, error⟩
  · obtain ⟨e, failed⟩ : ∃ e, schema.decodePartialItem undated .lenient = .error e := ⟨_, rfl⟩
    obtain ⟨_, _, _, node⟩ := (items schema undated).2.2 e (.inr failed)
    exact ⟨e, failed, node accepted⟩

end Sensor

end ItemSchema
