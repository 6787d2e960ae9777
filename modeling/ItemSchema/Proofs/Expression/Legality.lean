import ItemSchema.Proofs.Codec.Locality
import ItemSchema.Proofs.Expression.Building
import ItemSchema.Proofs.Wire.Json

/-! Which comparisons a view accepts. What may be asked of an attribute and what it may be compared
with are told apart, without a word of the table of operators or of encoding operands, and the check
accepts exactly what both allow. -/
namespace ItemSchema

/-- The operators that apply to a kind of attribute: few for keys, all for other attributes, where
some of them ask for data that they can look into. -/
structure AttributeKind.Legal (kind : AttributeKind) (operator : Operator) : Prop where
  partitionKey : kind.isPartitionKey = true → operator = .compare .eq
  sortKey : kind.isSortKey = true →
    (∃ comparator, comparator ≠ .ne ∧ operator = .compare comparator) ∨
      operator = .beginsWith ∨ operator = .between
  beginsWith : operator = .beginsWith →
    kind.scalarType? = some .string ∨ kind.scalarType? = some .date
  contains : operator = .contains →
    kind.scalarType? = some .string ∨ (∃ of, kind = .set of) ∨ kind = .list
  size : ∀ comparator, operator = .size comparator →
    kind.scalarType? = some .string ∨ (∃ of, kind = .set of) ∨ kind = .list ∨ kind = .map

namespace AttributeKind

/-- Only keys restrict the operators themselves. -/
theorem operators_contains_iff {kind : AttributeKind} {operator : Operator} :
    kind.operators.contains operator.family = true ↔
      (kind.isPartitionKey = true → operator = .compare .eq) ∧
        (kind.isSortKey = true →
          (∃ comparator, comparator ≠ .ne ∧ operator = .compare comparator) ∨
            operator = .beginsWith ∨ operator = .between) := by
  rw [List.contains_iff_mem]
  cases kind with
  | partitionKey => cases operator <;> simp [operators, Operator.family, isPartitionKey, isSortKey]
  | sortKey =>
    cases operator with
    | compare comparator =>
      cases comparator <;> simp [operators, Operator.family, isPartitionKey, isSortKey]
    | _ => simp [operators, Operator.family, isPartitionKey, isSortKey]
  | scalar | set | list | map =>
    cases operator with
    | compare comparator =>
      cases comparator <;>
        simp [operators, Operator.family, Comparator.all, isPartitionKey, isSortKey]
    | _ => simp [operators, Operator.family, Comparator.all, isPartitionKey, isSortKey]

theorem hasData_iff {kind : AttributeKind} {operator : Operator} :
    kind.hasData operator = true ↔
      (operator = .beginsWith →
        kind.scalarType? = some .string ∨ kind.scalarType? = some .date) ∧
      (operator = .contains →
        kind.scalarType? = some .string ∨ (∃ of, kind = .set of) ∨ kind = .list) ∧
      ∀ comparator, operator = .size comparator →
        kind.scalarType? = some .string ∨ (∃ of, kind = .set of) ∨ kind = .list ∨
          kind = .map := by
  cases operator with
  | beginsWith =>
    cases typed : kind.scalarType? with
    | none => simp [hasData, typed]
    | some of => cases of <;> simp [hasData, typed, ScalarType.isStringLike]
  | contains | size => cases kind <;> simp [hasData, isText, scalarType?]
  | _ => simp [hasData]

theorem admits_iff_legal {kind : AttributeKind} :
    kind.admits operator = true ↔ kind.Legal operator := by
  rw [admits, Bool.and_eq_true, operators_contains_iff, hasData_iff]
  constructor
  · rintro ⟨⟨partitionKey, sortKey⟩, beginsWith, contains, size⟩
    exact { partitionKey, sortKey, beginsWith, contains, size }
  · intro legal
    exact ⟨⟨legal.partitionKey, legal.sortKey⟩, legal.beginsWith, legal.contains, legal.size⟩

end AttributeKind

/-- What an attribute can be compared with by an operator, and the operands that stand for it in an
expression. -/
inductive Attribute.Takes : Attribute → Operator → Value → List Wire → Prop where
  | compare (own : a.encode v = .ok w) : Takes a (.compare comparator) v [w]
  | between (row : v = .list [low, high] ∨ v = .set [low, high]) (first : a.encode low = .ok x)
      (second : a.encode high = .ok y) : Takes a .between v [x, y]
  | isIn (row : v = .list us ∨ v = .set us) (some : 1 ≤ us.length) (most : us.length ≤ 100)
      (each : List.Forall₂ (fun u w => a.encode u = .ok w) us ws) : Takes a .isIn v ws
  | beginsWith : Takes a .beginsWith (.string s) [.s s]
  | exists : Takes a .exists .null []
  | notExists : Takes a .notExists .null []
  | attributeType (tag : WireTag) : Takes a .attributeType (.string tag.name) [.s tag.name]
  | containsText : Takes (.scalar .string) .contains (.string s) [.s s]
  | containsString : Takes (.set .string) .contains (.string s) [.s s]
  | containsNumber : Takes (.set .number) .contains (.number d) [.n d.toText]
  | containsBinary : Takes (.set .binary) .contains (.binary bytes) [.b bytes]
  | containsItem (own : item.encode v = .ok w) : Takes (.list (some item)) .contains v [w]
  | sizeNumber : Takes a (.size comparator) (.number d) [.n d.toText]
  | sizeBigint : Takes a (.size comparator) (.bigint n) [.n n.toText]

/-- Intervals, candidates and tests for existence apart, operators take one operand. -/
theorem Attribute.Takes.one (taken : Attribute.Takes a operator v ws)
    (single : ∀ count, operator.admitsCount count = decide (count = 1)) : ∃ w, ws = [w] := by
  cases taken with
  | between | isIn => exact absurd (single 2) (by decide)
  | «exists» | notExists => exact absurd (single 0) (by decide)
  | _ => exact ⟨_, rfl⟩

theorem Attribute.encode_ok_iff {a : Attribute} (p : Path) :
    encodeAt p a v = .ok w ↔ a.encode v = .ok w :=
  ⟨fun encoded => encodeAt_anywhere encoded [], fun encoded => encodeAt_anywhere encoded p⟩

theorem mapM_encodeAt_ok_iff {a : Attribute} {us : List Value} {ws : List Wire} (p : Path) :
    us.mapM (encodeAt p a) = .ok ws ↔ List.Forall₂ (fun u w => a.encode u = .ok w) us ws := by
  simp only [mapM_eq_ok_iff_forall₂, Attribute.encode_ok_iff p]

theorem Value.elements?_eq_some_iff {v : Value} :
    v.elements? = some us ↔ v = .list us ∨ v = .set us := by
  cases v <;> simp [elements?]

section Operands

variable {p : Path} {a : Attribute} {v : Value} {w : Wire} {ws : List Wire}

theorem encodeBounds_ok_iff : encodeBounds p a v = .ok ws ↔ a.Takes .between v ws := by
  constructor
  · intro encoded
    rw [encodeBounds] at encoded
    cases row : v.elements? with
    | none => simp [row, invalidOperand] at encoded
    | some bounds =>
      simp only [row] at encoded
      split at encoded
      · rename_i two
        obtain ⟨low, high, rfl⟩ := List.length_eq_two.mp two
        cases (mapM_encodeAt_ok_iff p).mp encoded with
        | cons first rest =>
          cases rest with
          | cons second rest =>
            cases rest with
            | nil => exact .between (Value.elements?_eq_some_iff.mp row) first second
      · contradiction
  · rintro (_ | ⟨row, first, second⟩)
    rw [encodeBounds, Value.elements?_eq_some_iff.mpr row]
    exact (mapM_encodeAt_ok_iff p).mpr (.cons first (.cons second .nil))

theorem encodeCandidates_ok_iff : encodeCandidates p a v = .ok ws ↔ a.Takes .isIn v ws := by
  constructor
  · intro encoded
    rw [encodeCandidates] at encoded
    cases row : v.elements? with
    | none => simp [row, invalidOperand] at encoded
    | some candidates =>
      simp only [row] at encoded
      split at encoded
      · rename_i counted
        rw [Operator.admitsCount, Bool.and_eq_true, decide_eq_true_eq, decide_eq_true_eq] at counted
        exact .isIn (Value.elements?_eq_some_iff.mp row) counted.1 counted.2
          ((mapM_encodeAt_ok_iff p).mp encoded)
      · contradiction
  · rintro (_ | _ | ⟨row, some, most, each⟩)
    have counted : Operator.isIn.admitsCount _ = true :=
      Bool.and_eq_true_iff.mpr ⟨decide_eq_true some, decide_eq_true most⟩
    simp only [encodeCandidates, Value.elements?_eq_some_iff.mpr row, counted, if_true]
    exact (mapM_encodeAt_ok_iff p).mpr each

theorem encodeTagName_ok_iff : encodeTagName p v = .ok w ↔ a.Takes .attributeType v [w] := by
  constructor
  · intro encoded
    cases v with
    | string name =>
      rw [encodeTagName] at encoded
      cases named : WireTag.ofName? name with
      | none => simp [named] at encoded
      | some tag =>
        simp only [named, Except.ok.injEq] at encoded
        rw [← encoded, WireTag.ofName?_eq_some_iff.mp named]
        exact .attributeType tag
    | _ => simp [encodeTagName, mismatch] at encoded
  · intro taken
    cases taken with
    | attributeType tag => simp [encodeTagName, WireTag.ofName?_eq_some_iff.mpr rfl]

theorem encodeMember_ok_iff :
    encodeMember p of v = .ok w ↔ (Attribute.set of).Takes .contains v [w] := by
  constructor
  · intro encoded
    cases of with
    | string =>
      obtain ⟨s, member, rfl⟩ := map_eq_ok.mp encoded
      obtain rfl := stringMember_ok_iff.mp member
      exact .containsString
    | number =>
      obtain ⟨d, member, rfl⟩ := map_eq_ok.mp encoded
      obtain rfl := numberMember_ok_iff.mp member
      exact .containsNumber
    | binary =>
      obtain ⟨bytes, member, rfl⟩ := map_eq_ok.mp encoded
      obtain rfl := binaryMember_ok_iff.mp member
      exact .containsBinary
  · intro taken
    cases taken <;> rfl

/-- Asked of an attribute that may be looked into. -/
theorem encodeContained_ok_iff (legal : a.kind.Legal .contains) :
    encodeContained p a v = .ok w ↔ a.Takes .contains v [w] := by
  cases a with
  | partitionKey => cases legal.partitionKey rfl
  | sortKey =>
    rcases legal.sortKey rfl with ⟨_, _, same⟩ | same | same <;> cases same
  | set of => exact encodeMember_ok_iff
  | list item =>
    cases item with
    | none =>
      constructor
      · intro encoded
        contradiction
      · intro taken
        cases taken
    | some item =>
      rw [encodeContained, Attribute.encode_ok_iff]
      constructor
      · exact .containsItem
      · rintro ⟨⟩
        assumption
  | scalar of =>
    have text := legal.contains rfl
    simp only [Attribute.kind, AttributeKind.scalarType?, Option.some.injEq, reduceCtorEq,
      exists_false, or_false] at text
    subst text
    constructor
    · intro encoded
      cases v <;> simp [encodeContained, encodeScalar, mismatch] at encoded
      subst encoded
      exact .containsText
    · intro taken
      cases taken
      rfl
  | map =>
    have data := legal.contains rfl
    simp [Attribute.kind, AttributeKind.scalarType?] at data

theorem encodeSize_ok_iff :
    encodeSize p v = .ok w ↔ a.Takes (.size comparator) v [w] := by
  constructor
  · intro encoded
    cases v <;> simp [encodeSize, encodeScalar, mismatch] at encoded
    · subst encoded
      exact .sizeNumber
    · subst encoded
      exact .sizeBigint
  · intro taken
    cases taken <;> rfl

/-- An operand that is encoded alone. -/
theorem singleton_ok_iff {x : Except Error Wire} (operand : ∀ w, x = .ok w ↔ a.Takes operator v [w])
    (single : ∀ count, operator.admitsCount count = decide (count = 1)) :
    ([·]) <$> x = .ok ws ↔ a.Takes operator v ws := by
  rw [map_eq_ok]
  constructor
  · rintro ⟨w, encoded, rfl⟩
    exact (operand w).mp encoded
  · intro taken
    obtain ⟨w, rfl⟩ := taken.one single
    exact ⟨w, (operand w).mpr taken, rfl⟩

theorem encodeOperands_ok_iff (legal : a.kind.Legal operator) :
    encodeOperands p a operator v = .ok ws ↔ a.Takes operator v ws := by
  cases operator with
  | compare comparator =>
    refine singleton_ok_iff (fun w => (Attribute.encode_ok_iff p).trans ?_) fun _ => rfl
    constructor
    · exact .compare
    · rintro ⟨own⟩
      exact own
  | beginsWith =>
    constructor
    · intro encoded
      cases v <;> simp [encodeOperands, mismatch] at encoded
      subst encoded
      exact .beginsWith
    · intro taken
      cases taken
      rfl
  | between => exact encodeBounds_ok_iff
  | isIn => exact encodeCandidates_ok_iff
  | attributeType => exact singleton_ok_iff (fun w => encodeTagName_ok_iff) fun _ => rfl
  | «exists» | notExists =>
    constructor
    · intro encoded
      cases v <;> simp [encodeOperands, Value.isNull, invalidOperand] at encoded
      subst encoded
      constructor
    · intro taken
      cases taken
      rfl
  | contains => exact singleton_ok_iff (fun w => encodeContained_ok_iff legal) fun _ => rfl
  | size => exact singleton_ok_iff (fun w => encodeSize_ok_iff) fun _ => rfl

end Operands

/-- A comparison is accepted exactly if its path leads to an attribute that the view shows, its
operator applies to the attribute and its value fits. It then has the operands that stand for the
value, in their order. The path, or the path and the operator, may be given as text. -/
theorem SchemaView.compare_exact (view : SchemaView) (c : Condition) :
    (∀ p operator v, view.compare p operator v = .ok c ↔
      ∃ a ws, view.resolve p = .ok a ∧ a.kind.Legal operator ∧ a.Takes operator v ws ∧
        c = .comparison p operator ws) ∧
    (∀ path operator v, view.condition (.comparison path operator v) = .ok c ↔
      ∃ p a ws, path.toPath = .ok p ∧ view.resolve p = .ok a ∧ a.kind.Legal operator ∧
        a.Takes operator v ws ∧ c = .comparison p operator ws) ∧
    ∀ path word v, view.condition (.named path word v) = .ok c ↔
      ∃ p operator a ws, path.toPath = .ok p ∧ Operator.parse word = .ok operator ∧
        view.resolve p = .ok a ∧ a.kind.Legal operator ∧ a.Takes operator v ws ∧
        c = .comparison p operator ws := by
  have compared : ∀ p operator v, view.compare p operator v = .ok c ↔
      ∃ a ws, view.resolve p = .ok a ∧ a.kind.Legal operator ∧ a.Takes operator v ws ∧
        c = .comparison p operator ws := by
    intro p operator v
    rw [compare_ok_iff]
    simp only [AttributeKind.admits_iff_legal]
    constructor
    · rintro ⟨a, ws, resolved, legal, encoded, made⟩
      exact ⟨a, ws, resolved, legal, (encodeOperands_ok_iff legal).mp encoded, made⟩
    · rintro ⟨a, ws, resolved, legal, taken, made⟩
      exact ⟨a, ws, resolved, legal, (encodeOperands_ok_iff legal).mpr taken, made⟩
  refine ⟨compared, ?_, ?_⟩
  · intro path operator v
    simp only [condition, bind_eq_ok, compared, ← exists_and_left]
  · intro path word v
    simp only [condition, bind_eq_ok, compared, ← exists_and_left]

end ItemSchema
