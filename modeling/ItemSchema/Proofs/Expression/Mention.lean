import ItemSchema.Proofs.Expression.Clause
import ItemSchema.Proofs.Expression.Reading

/-! The aliases that stand in an expression, in their order there. -/
namespace ItemSchema

namespace Expression

def nameAliases (text : String) : List String :=
  (tokens text).filterMap nameAlias?

def valueAliases (text : String) : List String :=
  (tokens text).filterMap valueAlias?

/-- Tokens with these name and value aliases and no others. -/
structure Mentions (stems : AliasStems) (ts : List Token) (ns vs : List Nat) : Prop where
  names : ts.filterMap nameAlias? = ns.map stems.nameAlias
  values : ts.filterMap valueAlias? = vs.map stems.valueAlias

section

variable {stems : AliasStems}

theorem Mentions.append (first : Mentions stems ts ns vs) (second : Mentions stems us ms ws) :
    Mentions stems (ts ++ us) (ns ++ ms) (vs ++ ws) := by
  constructor
  · rw [List.filterMap_append, first.names, second.names, List.map_append]
  · rw [List.filterMap_append, first.values, second.values, List.map_append]

/-- Tokens without aliases change nothing. -/
theorem Mentions.within (mentions : Mentions stems ts ns vs) (front : Mentions stems us [] [])
    (back : Mentions stems ws [] []) : Mentions stems (us ++ ts ++ ws) ns vs := by
  have all := (front.append mentions).append back
  rwa [List.append_nil, List.append_nil] at all

theorem Mentions.join {parts : List α} {tokensOf : α → List Token} {ns vs : α → List Nat}
    (each : ∀ part ∈ parts, Mentions stems (tokensOf part) (ns part) (vs part))
    (between : Mentions stems separator [] []) :
    Mentions stems (joinTokens separator (parts.map tokensOf)) (parts.flatMap ns)
      (parts.flatMap vs) := by
  induction parts with
  | nil => exact ⟨rfl, rfl⟩
  | cons part rest ih =>
    obtain ⟨here, behind⟩ := List.forall_mem_cons.mp each
    cases rest with
    | nil => simpa [joinTokens] using here
    | cons next rest =>
      have all := (here.append between).append (ih behind)
      rwa [List.append_nil, List.append_nil] at all

theorem mentions_nameAlias (admissible : stems.Admissible) (i : Nat) :
    Mentions stems [.word (stems.nameAlias i).toList] [i] [] := by
  have notValue : valueAlias? (.word (stems.nameAlias i).toList) = none :=
    marked?_of_isAlias (nameAlias_isAlias admissible i) ':'
  constructor
  · simp [nameAlias?_written admissible]
  · simp [notValue]

theorem mentions_valueToken (admissible : stems.Admissible) (i : Nat) :
    Mentions stems [stems.valueToken i] [] [i] := by
  have notName : nameAlias? (stems.valueToken i) = none :=
    marked?_of_isAlias (valueAlias_isAlias admissible i) '#'
  constructor
  · simp [notName]
  · simp [valueAlias?_written admissible]

theorem marked?_digits (notDigit : marker.isDigit = false) (n : Nat) :
    marked? marker (.word (Numeral.digits n)) = none := by
  cases row : Numeral.digits n with
  | nil => rfl
  | cons first rest =>
    have digit := Numeral.digits_isDigit (row ▸ List.mem_cons_self : first ∈ Numeral.digits n)
    have other : first ≠ marker := by
      rintro rfl
      rw [notDigit] at digit
      contradiction
    rw [marked?, if_neg other]

theorem mentions_number (n : Nat) : Mentions stems [.word (Numeral.digits n)] [] [] := by
  constructor
  · simp [nameAlias?, marked?_digits]
  · simp [valueAlias?, marked?_digits]

theorem mentions_index (n : Nat) :
    Mentions stems [.mark '[', .word (Numeral.digits n), .mark ']'] [] [] := by
  have opening : Mentions stems [.mark '['] [] [] := ⟨rfl, rfl⟩
  have closing : Mentions stems [.mark ']'] [] [] := ⟨rfl, rfl⟩
  exact (mentions_number n).within opening closing

theorem mentions_path (admissible : stems.Admissible) (p : AliasedPath) :
    Mentions stems (stems.pathTokens p) (p.flatMap Segment.names) [] := by
  have joined : ∀ rest : AliasedPath,
      Mentions stems (rest.flatMap stems.joinedTokens) (rest.flatMap Segment.names) [] := by
    intro rest
    induction rest with
    | nil => exact ⟨rfl, rfl⟩
    | cons segment rest ih =>
      cases segment with
      | field i =>
        have dot : Mentions stems [.mark '.'] [] [] := ⟨rfl, rfl⟩
        exact dot.append ((mentions_nameAlias admissible i).append ih)
      | index n => exact (mentions_index n).append ih
  cases p with
  | nil => exact ⟨rfl, rfl⟩
  | cons first rest =>
    cases first with
    | field i => exact (mentions_nameAlias admissible i).append (joined rest)
    | index n => exact (mentions_index n).append (joined rest)

theorem mentions_operands (admissible : stems.Admissible) (operands : List Nat)
    (between : Mentions stems separator [] []) :
    Mentions stems (joinTokens separator (operands.map fun i => [stems.valueToken i])) []
      operands := by
  have all := Mentions.join (fun i (_ : i ∈ operands) => mentions_valueToken admissible i) between
  have noNames : operands.flatMap (fun _ => ([] : List Nat)) = [] :=
    List.flatMap_eq_nil_iff.mpr fun _ _ => rfl
  rwa [List.flatMap_singleton', noNames] at all

theorem mentions_call (admissible : stems.Admissible) {name : String}
    (opening : Mentions stems [.word name.toList, .mark '('] [] []) (p : AliasedPath)
    (operands : List Nat) :
    Mentions stems (.word name.toList :: .mark '(' :: (joinTokens [.mark ','] (stems.pathTokens p ::
      operands.map fun i => [stems.valueToken i]) ++ [.mark ')'])) (p.flatMap Segment.names)
      operands := by
  have target := mentions_path admissible p
  have comma : Mentions stems [.mark ','] [] [] := ⟨rfl, rfl⟩
  have closing : Mentions stems [.mark ')'] [] [] := ⟨rfl, rfl⟩
  cases operands with
  | nil => exact target.within opening closing
  | cons i rest =>
    have listed := mentions_operands admissible (i :: rest) comma
    have arguments := (target.append comma).append listed
    rw [List.append_nil, List.append_nil] at arguments
    exact arguments.within opening closing

theorem mentions_comparison (admissible : stems.Admissible) (operator : Operator)
    (p : AliasedPath) (operands : List Nat) :
    Mentions stems (operator.comparisonTokens (stems.pathTokens p)
      (operands.map fun i => [stems.valueToken i])) (p.flatMap Segment.names) operands := by
  have target := mentions_path admissible p
  have comma : Mentions stems [.mark ','] [] [] := ⟨rfl, rfl⟩
  have closing : Mentions stems [.mark ')'] [] [] := ⟨rfl, rfl⟩
  have listed := mentions_operands admissible operands comma
  have sign : ∀ comparator : Comparator, Mentions stems [.symbol comparator.symbol.toList] [] [] :=
    fun _ => ⟨rfl, rfl⟩
  cases operator with
  | compare comparator =>
    have compared := (target.append (sign comparator)).append listed
    simpa [Operator.comparisonTokens] using compared
  | between =>
    have keyword : Mentions stems [.word "BETWEEN".toList] [] [] := ⟨rfl, rfl⟩
    have separator : Mentions stems [.word "AND".toList] [] [] := ⟨rfl, rfl⟩
    have bounds := mentions_operands admissible operands separator
    have compared := (target.append keyword).append bounds
    simpa [Operator.comparisonTokens] using compared
  | isIn =>
    have opening : Mentions stems [.word "IN".toList, .mark '('] [] [] := ⟨rfl, rfl⟩
    have compared := target.append (listed.within opening closing)
    simpa [Operator.comparisonTokens] using compared
  | size comparator =>
    have opening : Mentions stems [.word "size".toList, .mark '('] [] [] := ⟨rfl, rfl⟩
    have compared := ((target.within opening closing).append (sign comparator)).append listed
    simpa [Operator.comparisonTokens] using compared
  | beginsWith | attributeType | «exists» | notExists | contains =>
    exact mentions_call admissible ⟨rfl, rfl⟩ p operands

theorem mentions_group (operator : LogicalOperator) {children : List AliasedCondition}
    (each : ∀ c ∈ children, Mentions stems (stems.conditionTokens c) c.allNames c.allOperands) :
    Mentions stems (operator.groupTokens (children.map stems.conditionTokens))
      (children.flatMap ConditionTree.allNames) (children.flatMap ConditionTree.allOperands) := by
  have opening : Mentions stems [.mark '('] [] [] := ⟨rfl, rfl⟩
  have closing : Mentions stems [.mark ')'] [] [] := ⟨rfl, rfl⟩
  cases operator with
  | not =>
    have negation : Mentions stems [.mark '(', .word "NOT".toList] [] [] := ⟨rfl, rfl⟩
    have nothing : Mentions stems [] [] [] := ⟨rfl, rfl⟩
    exact (Mentions.join each nothing).within negation closing
  | and =>
    have keyword : Mentions stems [.word "AND".toList] [] [] := ⟨rfl, rfl⟩
    exact (Mentions.join each keyword).within opening closing
  | or =>
    have keyword : Mentions stems [.word "OR".toList] [] [] := ⟨rfl, rfl⟩
    exact (Mentions.join each keyword).within opening closing

theorem mentions_condition (admissible : stems.Admissible) (c : AliasedCondition) :
    Mentions stems (stems.conditionTokens c) c.allNames c.allOperands := by
  induction c using ConditionTree.children_induction with
  | comparison p operator operands => exact mentions_comparison admissible operator p operands
  | logical operator children ih =>
    rw [AliasStems.conditionTokens, AliasStems.conditionsTokens_eq_map, ConditionTree.allNames,
      ConditionTree.namesOfAll_eq_flatMap, ConditionTree.allOperands,
      ConditionTree.operandsOfAll_eq_flatMap]
    exact mentions_group operator ih

theorem mentions_projection (admissible : stems.Admissible) (paths : List AliasedPath) :
    Mentions stems (stems.projectionTokens paths) (paths.flatMap fun p => p.flatMap Segment.names)
      [] := by
  have comma : Mentions stems [.mark ','] [] [] := ⟨rfl, rfl⟩
  have all := Mentions.join (fun p (_ : p ∈ paths) => mentions_path admissible p) comma
  have noValues : paths.flatMap (fun _ => ([] : List Nat)) = [] :=
    List.flatMap_eq_nil_iff.mpr fun _ _ => rfl
  rwa [noValues] at all

theorem mentions_action (admissible : stems.Admissible) (a : AliasedAction) :
    Mentions stems (stems.actionTokens a) a.names a.operands := by
  have sign : Mentions stems [.symbol ['=']] [] [] := ⟨rfl, rfl⟩
  cases a with
  | set p i =>
    have all := (mentions_path admissible p).append (sign.append (mentions_valueToken admissible i))
    rwa [List.append_nil, List.append_nil] at all
  | remove p => exact mentions_path admissible p
  | delete p i =>
    have all := (mentions_path admissible p).append (mentions_valueToken admissible i)
    rwa [List.append_nil] at all

theorem mentions_clause (admissible : stems.Admissible) (actions : List AliasedAction)
    (keyword : UpdateKeyword) :
    Mentions stems (stems.clauseTokens actions keyword)
      ((actions.filter fun a => a.keyword = keyword).flatMap UpdateAction.names)
      ((actions.filter fun a => a.keyword = keyword).flatMap UpdateAction.operands) := by
  have comma : Mentions stems [.mark ','] [] [] := ⟨rfl, rfl⟩
  have opening : Mentions stems [.word keyword.text.toList] [] [] := by
    cases keyword <;> exact ⟨rfl, rfl⟩
  exact opening.append (Mentions.join (fun a _ => mentions_action admissible a) comma)

theorem mentions_update (admissible : stems.Admissible) (actions : List AliasedAction) :
    Mentions stems (stems.updateTokens actions)
      ((UpdateAction.byClause actions).flatMap UpdateAction.names)
      ((UpdateAction.byClause actions).flatMap UpdateAction.operands) := by
  have nothing : Mentions stems [] [] [] := ⟨rfl, rfl⟩
  rw [← UpdateAction.byClause_flatMap, ← UpdateAction.byClause_flatMap]
  exact Mentions.join (fun keyword _ => mentions_clause admissible actions keyword) nothing

end

end Expression

end ItemSchema
