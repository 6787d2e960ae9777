import ItemSchema.Proofs.Expression.Reader
import ItemSchema.Proofs.Expression.Spelling
import ItemSchema.Proofs.Expression.Tree

/-! What is read of a condition that was written is that condition, over the texts of its aliases.
Every part is read with the tokens behind it present, and leaves these. -/
namespace ItemSchema.Expression

section

variable {stems : AliasStems} {later : List Token}

theorem marked?_of_isAlias {text : String} (isAlias : IsAlias marker text.toList) (other : Char) :
    marked? other (.word text.toList) = if marker = other then some text else none := by
  obtain ⟨rest, same, _⟩ := isAlias
  rw [same, marked?, ← same, String.ofList_toList]

theorem nameAlias?_written (admissible : stems.Admissible) (i : Nat) :
    nameAlias? (.word (stems.nameAlias i).toList) = some (stems.nameAlias i) :=
  marked?_of_isAlias (nameAlias_isAlias admissible i) '#'

theorem valueAlias?_written (admissible : stems.Admissible) (i : Nat) :
    valueAlias? (stems.valueToken i) = some (stems.valueAlias i) :=
  marked?_of_isAlias (valueAlias_isAlias admissible i) ':'

/-- Whether no path goes on. -/
def endsPath : List Token → Bool
  | .mark c :: _ => c != '.' && c != '['
  | _ => true

theorem readSegments_of_endsPath (ends : endsPath later = true) :
    readSegments later = ([], later) := by
  unfold readSegments
  split <;> first | rfl | simp [endsPath] at ends

theorem readSegments_joined (admissible : stems.Admissible) (segments : AliasedPath)
    (ends : endsPath later = true) :
    readSegments (segments.flatMap stems.joinedTokens ++ later) =
      (segments.map (Segment.map stems.nameAlias), later) := by
  induction segments with
  | nil => exact readSegments_of_endsPath ends
  | cons segment rest ih =>
    cases segment with
    | field i =>
      simp only [List.flatMap_cons, AliasStems.joinedTokens, List.cons_append, List.nil_append,
        readSegments, nameAlias?_written admissible, ih]
      rfl
    | index n =>
      simp only [List.flatMap_cons, AliasStems.joinedTokens, List.cons_append, List.nil_append,
        readSegments, Numeral.natural?_digits, ih]
      rfl

theorem readPath_written (admissible : stems.Admissible) (i : Nat) (rest : AliasedPath)
    (ends : endsPath later = true) :
    readPath (stems.pathTokens (.field i :: rest) ++ later) =
      some ((Segment.field i :: rest).map (Segment.map stems.nameAlias), later) := by
  simp only [AliasStems.pathTokens, AliasStems.segmentTokens, List.cons_append, List.nil_append,
    readPath, nameAlias?_written admissible, readSegments_joined admissible rest ends]
  rfl

theorem readOperands_written (admissible : stems.Admissible) {operands : List Nat}
    (nonempty : operands ≠ []) (later : List Token) :
    readOperands (joinTokens [.mark ','] (operands.map fun i => [stems.valueToken i]) ++
      .mark ')' :: later) = some (operands.map stems.valueAlias, later) := by
  induction operands with
  | nil => contradiction
  | cons i rest ih =>
    cases rest with
    | nil =>
      simp only [List.map_cons, List.map_nil, joinTokens, List.cons_append, List.nil_append,
        readOperands, valueAlias?_written admissible]
      rfl
    | cons j rest =>
      have others := ih (List.cons_ne_nil j rest)
      simp only [List.map_cons, joinTokens, List.cons_append, List.nil_append, readOperands,
         valueAlias?_written admissible] at others ⊢
      rw [others]
      rfl

theorem readCompared_written (admissible : stems.Admissible) (comparator : Comparator) (i : Nat) :
    readCompared (.symbol comparator.symbol.toList :: stems.valueToken i :: later) =
      some (comparator, stems.valueAlias i, later) := by
  have symbol : Comparator.ofSymbol? comparator.symbol = some comparator := by
    cases comparator <;> rfl
  simp only [readCompared, String.ofList_toList, symbol, valueAlias?_written admissible]
  rfl

/-- A path that is no argument of a function has a word or a comparison sign behind it. -/
theorem readComparison_path (admissible : stems.Admissible) (i : Nat) (rest : AliasedPath)
    (noMark : ∀ c, t ≠ Token.mark c) (later : List Token) :
    readComparison (stems.pathTokens (.field i :: rest) ++ t :: later) =
      readQuestion ((Segment.field i :: rest).map (Segment.map stems.nameAlias)) (t :: later) := by
  have ends : endsPath (t :: later) = true := by
    cases t with
    | mark c => exact absurd rfl (noMark c)
    | _ => rfl
  have path := readPath_written admissible i rest ends
  unfold readComparison
  split
  · rename_i name behind tokens
    cases rest with
    | nil =>
      simp only [AliasStems.pathTokens, AliasStems.segmentTokens, List.flatMap_nil,
        List.append_nil, List.cons_append, List.nil_append, List.cons.injEq] at tokens
      exact absurd tokens.2.1 (noMark '(')
    | cons segment rest =>
      cases segment <;>
        simp [AliasStems.pathTokens, AliasStems.segmentTokens, AliasStems.joinedTokens] at tokens
  · rw [path]
    rfl

theorem readCall_size (admissible : stems.Admissible) (i : Nat) (rest : AliasedPath)
    (comparator : Comparator) (v : Nat) (later : List Token) :
    readCall "size".toList (stems.pathTokens (.field i :: rest) ++
      .mark ')' :: .symbol comparator.symbol.toList :: stems.valueToken v :: later) =
      some (.comparison ((Segment.field i :: rest).map (Segment.map stems.nameAlias))
        (.size comparator) [stems.valueAlias v], later) := by
  rw [readCall, readPath_written admissible i rest rfl]
  simp only [Option.bind_eq_bind, Option.bind_some, if_true, readCompared_written admissible]
  rfl

theorem readCall_function (admissible : stems.Admissible) (i : Nat) (rest : AliasedPath)
    (operands : List Nat) (named : function? name = some operator) (notSize : name ≠ "size".toList)
    (later : List Token) :
    readCall name (joinTokens [.mark ','] (stems.pathTokens (.field i :: rest) ::
      operands.map fun i => [stems.valueToken i]) ++ .mark ')' :: later) =
      some (.comparison ((Segment.field i :: rest).map (Segment.map stems.nameAlias))
        operator (operands.map stems.valueAlias), later) := by
  cases operands with
  | nil =>
    simp only [List.map_nil, joinTokens]
    rw [readCall, readPath_written admissible i rest rfl]
    simp only [Option.bind_eq_bind, Option.bind_some, if_neg notSize, named]
    rfl
  | cons v operands =>
    have listed := readOperands_written admissible (List.cons_ne_nil v operands) later
    simp only [List.map_cons, joinTokens, List.append_assoc, List.cons_append, List.nil_append]
      at listed ⊢
    rw [readCall, readPath_written admissible i rest rfl]
    simp only [Option.bind_eq_bind, Option.bind_some, listed, named]
    rfl

theorem readComparison_function (admissible : stems.Admissible) (i : Nat) (rest : AliasedPath)
    (operands : List Nat) {name : String} (named : function? name.toList = some operator)
    (notSize : name.toList ≠ "size".toList) (later : List Token) :
    readComparison ((.word name.toList :: .mark '(' ::
      (joinTokens [.mark ','] (stems.pathTokens (.field i :: rest) ::
        operands.map fun i => [stems.valueToken i]) ++ [.mark ')'])) ++ later) =
      some (.comparison ((Segment.field i :: rest).map (Segment.map stems.nameAlias)) operator
        (operands.map stems.valueAlias), later) := by
  have read := readCall_function admissible i rest operands named notSize later
  simpa [readComparison] using read

theorem readComparison_written (admissible : stems.Admissible) (i : Nat) (rest : AliasedPath)
    {operands : List Nat} (count : operator.admitsCount operands.length = true)
    (later : List Token) :
    readComparison (operator.comparisonTokens (stems.pathTokens (.field i :: rest))
      (operands.map fun i => [stems.valueToken i]) ++ later) =
      some (.comparison ((Segment.field i :: rest).map (Segment.map stems.nameAlias)) operator
        (operands.map stems.valueAlias), later) := by
  have single : operands.length = 1 → ∃ v, operands = [v] := List.length_eq_one_iff.mp
  cases operator with
  | compare comparator =>
    obtain ⟨v, rfl⟩ := single (by simpa [Operator.admitsCount] using count)
    simp only [Operator.comparisonTokens, List.map_cons, List.map_nil, joinTokens,
      List.append_assoc, List.cons_append, List.nil_append]
    rw [readComparison_path admissible i rest (by simp), readQuestion]
    · rw [readCompared_written admissible]
      rfl
    · simp
  | between =>
    obtain ⟨low, high, rfl⟩ : ∃ low high, operands = [low, high] :=
      List.length_eq_two.mp (by simpa [Operator.admitsCount] using count)
    simp only [Operator.comparisonTokens, List.map_cons, List.map_nil, joinTokens,
      List.append_assoc, List.cons_append, List.nil_append]
    rw [readComparison_path admissible i rest (by simp), readQuestion]
    simp only [if_true, valueAlias?_written admissible]
    rfl
  | isIn =>
    have nonempty : operands ≠ [] := by
      rintro rfl
      contradiction
    have notBetween : "IN".toList ≠ "BETWEEN".toList := by decide
    simp only [Operator.comparisonTokens, List.append_assoc, List.cons_append, List.nil_append]
    rw [readComparison_path admissible i rest (by simp)]
    unfold readQuestion
    simp only [if_neg notBetween, if_true, readOperands_written admissible nonempty]
    rfl
  | size comparator =>
    obtain ⟨v, rfl⟩ := single (by simpa [Operator.admitsCount] using count)
    have read := readCall_size admissible i rest comparator v later
    simpa [Operator.comparisonTokens, readComparison, joinTokens] using read
  | beginsWith | attributeType | «exists» | notExists | contains =>
    exact readComparison_function admissible i rest operands rfl (by decide) later

theorem comparisonTokens_word (admissible : stems.Admissible) (operator : Operator) (i : Nat)
    (rest : AliasedPath) (operands : List (List Token)) :
    ∃ word more, operator.comparisonTokens (stems.pathTokens (.field i :: rest)) operands =
      .word word :: more ∧ word ≠ "NOT".toList := by
  obtain ⟨text, marked, _⟩ := nameAlias_isAlias admissible i
  have other : (stems.nameAlias i).toList ≠ "NOT".toList := by
    rw [marked]
    intro same
    exact absurd (List.head_eq_of_cons_eq same) (by decide)
  cases operator with
  | compare | between | isIn => exact ⟨_, _, rfl, other⟩
  | size => exact ⟨_, _, rfl, by decide⟩
  | _ => exact ⟨_, _, rfl, by decide⟩

theorem readIn_comparison {ts : List Token} (start : ts = .word word :: more)
    (other : word ≠ "NOT".toList) (read : readComparison (ts ++ later) = some (c, later))
    (groups : List Group) : readIn groups (ts ++ later) = resume c groups later := by
  subst start
  have progress : later.length ≤ (more ++ later).length := by simp
  rw [List.cons_append] at read ⊢
  unfold readIn
  simp only [if_neg other, read, if_pos progress]

/-- Conditions behind one that has already been read in a group. -/
theorem readIn_parts {operator : LogicalOperator} (joins : operator ≠ .not)
    {children : List AliasedCondition} {parsed : AliasedCondition → WrittenCondition}
    (each : ∀ c ∈ children, ∀ groups later,
      readIn groups (stems.conditionTokens c ++ later) = resume (parsed c) groups later)
    (nonempty : children ≠ []) (parts : List WrittenCondition) (outer : List Group)
    (later : List Token) :
    readIn (⟨some operator, parts⟩ :: outer)
      (joinTokens [.word operator.keyword.toList] (children.map stems.conditionTokens) ++
        .mark ')' :: later) =
      resume (.logical operator (parts.reverse ++ children.map parsed)) outer later := by
  induction children generalizing parts with
  | nil => contradiction
  | cons c rest ih =>
    obtain ⟨here, behind⟩ := List.forall_mem_cons.mp each
    cases rest with
    | nil =>
      simp only [List.map_cons, List.map_nil, joinTokens]
      rw [here, resume, Group.close, List.reverse_cons, Option.getD_some]
    | cons d rest =>
      have extended : (⟨some operator, parts⟩ : Group).extend? (parsed c)
          operator.keyword.toList = some ⟨some operator, parsed c :: parts⟩ := by
        cases operator <;> first | rfl | contradiction
      simp only [List.map_cons, joinTokens, List.append_assoc, List.cons_append, List.nil_append]
      rw [here, resume, extended]
      have others := ih behind (List.cons_ne_nil d rest) (parsed c :: parts)
      rw [List.map_cons, List.reverse_cons, List.append_assoc] at others
      exact others

/-- Conditions in a group whose operator is not known before the second one. -/
theorem readIn_joined {operator : LogicalOperator} (joins : operator ≠ .not)
    {children : List AliasedCondition} {parsed : AliasedCondition → WrittenCondition}
    (each : ∀ c ∈ children, ∀ groups later,
      readIn groups (stems.conditionTokens c ++ later) = resume (parsed c) groups later)
    (nonempty : children ≠ []) (outer : List Group) (later : List Token) :
    readIn (⟨none, []⟩ :: outer)
      (joinTokens [.word operator.keyword.toList] (children.map stems.conditionTokens) ++
        .mark ')' :: later) =
      resume (.logical (operator.ofGroup children.length) (children.map parsed)) outer later := by
  cases children with
  | nil => contradiction
  | cons c rest =>
    obtain ⟨here, behind⟩ := List.forall_mem_cons.mp each
    cases rest with
    | nil =>
      have single : operator.ofGroup 1 = .and := by
        cases operator <;> first | rfl | contradiction
      simp only [List.map_cons, List.map_nil, joinTokens]
      rw [here, resume, List.length_singleton, single]
      rfl
    | cons d rest =>
      have extended : (⟨none, []⟩ : Group).extend? (parsed c) operator.keyword.toList =
          some ⟨some operator, [parsed c]⟩ := by
        cases operator <;> first | rfl | contradiction
      have several : operator.ofGroup (c :: d :: rest).length = operator := by
        cases operator <;> rfl
      have others := readIn_parts joins behind (List.cons_ne_nil d rest) [parsed c] outer later
      rw [List.map_cons] at others
      simp only [List.map_cons, joinTokens, List.append_assoc, List.cons_append, List.nil_append]
      rw [here, resume, extended, several]
      exact others

theorem readIn_group (operator : LogicalOperator) {children : List AliasedCondition}
    {parsed : AliasedCondition → WrittenCondition}
    (each : ∀ c ∈ children, ∀ groups later,
      readIn groups (stems.conditionTokens c ++ later) = resume (parsed c) groups later)
    (count : operator.admitsCount children.length = true) (groups : List Group)
    (later : List Token) :
    readIn groups (operator.groupTokens (children.map stems.conditionTokens) ++ later) =
      resume (.logical (operator.ofGroup children.length) (children.map parsed)) groups later := by
  have nonempty : children ≠ [] := by
    rintro rfl
    cases operator <;> contradiction
  have joined : operator ≠ .not → readIn groups (.mark '(' ::
      (joinTokens [.word operator.keyword.toList] (children.map stems.conditionTokens) ++
        .mark ')' :: later)) =
      resume (.logical (operator.ofGroup children.length) (children.map parsed)) groups later := by
    intro joins
    rw [readIn]
    exact readIn_joined joins each nonempty groups later
  cases operator with
  | not =>
    obtain ⟨c, rfl⟩ : ∃ c, children = [c] :=
      List.length_eq_one_iff.mp (by simpa [LogicalOperator.admitsCount] using count)
    simp only [LogicalOperator.groupTokens, List.map_cons, List.map_nil, joinTokens,
      List.cons_append, List.append_assoc, List.nil_append]
    rw [readIn]
    unfold readIn
    rw [if_pos (show LogicalOperator.not.keyword.toList = "NOT".toList from rfl)]
    dsimp only
    rw [each c (List.mem_singleton_self c), resume]
    rfl
  | and | or =>
    simpa only [LogicalOperator.groupTokens, List.cons_append, List.append_assoc,
      List.nil_append] using joined (by decide)

theorem readIn_condition (admissible : stems.Admissible) {c : AliasedCondition}
    (rooted : c.Rooted) (counted : c.Counted) (groups : List Group) (later : List Token) :
    readIn groups (stems.conditionTokens c ++ later) =
      resume (c.map stems.nameAlias stems.valueAlias).grouped groups later := by
  -- Inside a group other groups are open and other tokens follow, so both are kept general.
  induction c using ConditionTree.children_induction generalizing groups later with
  | comparison p operator operands =>
    cases rooted with
    | comparison i rest =>
      cases counted with
      | comparison _ count =>
        obtain ⟨word, more, start, other⟩ := comparisonTokens_word admissible operator i rest
          (operands.map fun v => [stems.valueToken v])
        exact readIn_comparison start other
          (readComparison_written admissible i rest count later) groups
  | logical operator children ih =>
    cases rooted with
    | logical _ rooted =>
      cases counted with
      | logical count counted =>
        have each : ∀ c ∈ children, ∀ groups later,
            readIn groups (stems.conditionTokens c ++ later) =
              resume (c.map stems.nameAlias stems.valueAlias).grouped groups later :=
          fun c member => ih c member (rooted c member) (counted c member)
        rw [AliasStems.conditionTokens, AliasStems.conditionsTokens_eq_map,
          readIn_group operator each count]
        simp [ConditionTree.map, ConditionTree.grouped, ConditionTree.mapAll_eq_map,
          ConditionTree.groupedAll_eq_map, Function.comp_def]

theorem readCondition_conditionText (admissible : stems.Admissible) {c : AliasedCondition}
    (rooted : c.Rooted) (counted : c.Counted) :
    readCondition (stems.conditionText c) =
      some (c.map stems.nameAlias stems.valueAlias).grouped := by
  have read := readIn_condition admissible rooted counted [] []
  rw [List.append_nil, resume] at read
  rw [readCondition, (spells_conditionText admissible c).tokens_eq, read]

end

end ItemSchema.Expression
