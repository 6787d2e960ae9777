import ItemSchema.Expression.Printer
import ItemSchema.Proofs.Except
import ItemSchema.Proofs.Expression.Token
import ItemSchema.Proofs.Numeral.Digits
import ItemSchema.Table.Config

/-! The tokens of the expressions that are written. Two runs never touch: between aliases, keywords
and comparison signs there is always a blank or a mark. -/
namespace ItemSchema

open Expression

/-- Stems that a table takes: a marker with letters, digits and underscores behind it. -/
structure AliasStems.Admissible (stems : AliasStems) : Prop where
  name : TableConfig.isStem '#' stems.name.toList = true
  value : TableConfig.isStem ':' stems.value.toList = true

theorem TableConfig.admissible_of_check {config : TableConfig} (checked : config.check = .ok ()) :
    config.stems.Admissible := by
  have stem : ∀ {text : String} {marker : Char}, checkStem text marker = .ok () →
      isStem marker text.toList = true := by
    intro text marker ok
    rw [checkStem] at ok
    split at ok
    · assumption
    · contradiction
  rw [check] at checked
  split at checked
  · contradiction
  · obtain ⟨_, name, value⟩ := bind_eq_ok.mp checked
    exact ⟨stem name, stem value⟩

/-- A marker, and behind it nothing but word characters. -/
def IsAlias (marker : Char) (text : List Char) : Prop :=
  ∃ rest, text = marker :: rest ∧ ∀ c ∈ rest, isWordChar c = true

namespace AliasStems

def segmentTokens (stems : AliasStems) : Segment Nat → List Token
  | .field i => [.word (stems.nameAlias i).toList]
  | .index n => [.mark '[', .word (Numeral.digits n), .mark ']']

def joinedTokens (stems : AliasStems) : Segment Nat → List Token
  | .field i => [.mark '.', .word (stems.nameAlias i).toList]
  | .index n => [.mark '[', .word (Numeral.digits n), .mark ']']

def pathTokens (stems : AliasStems) : AliasedPath → List Token
  | [] => []
  | first :: rest => stems.segmentTokens first ++ rest.flatMap stems.joinedTokens

def valueToken (stems : AliasStems) (i : Nat) : Token :=
  .word (stems.valueAlias i).toList

end AliasStems

def Operator.comparisonTokens (operator : Operator) (target : List Token)
    (operands : List (List Token)) : List Token :=
  match operator with
  | .compare comparator =>
    target ++ .symbol comparator.symbol.toList :: joinTokens [.mark ','] operands
  | .between => target ++ .word "BETWEEN".toList :: joinTokens [.word "AND".toList] operands
  | .isIn =>
    target ++ .word "IN".toList :: .mark '(' :: (joinTokens [.mark ','] operands ++ [.mark ')'])
  | .size comparator =>
    .word "size".toList :: .mark '(' ::
      (target ++ .mark ')' :: .symbol comparator.symbol.toList :: joinTokens [.mark ','] operands)
  | .beginsWith | .attributeType | .exists | .notExists | .contains =>
    .word operator.text.toList :: .mark '(' ::
      (joinTokens [.mark ','] (target :: operands) ++ [.mark ')'])

def LogicalOperator.groupTokens (operator : LogicalOperator) (parts : List (List Token)) :
    List Token :=
  match operator with
  | .not => .mark '(' :: .word operator.keyword.toList :: (joinTokens [] parts ++ [.mark ')'])
  | .and | .or => .mark '(' :: (joinTokens [.word operator.keyword.toList] parts ++ [.mark ')'])

namespace AliasStems

mutual

def conditionTokens (stems : AliasStems) : AliasedCondition → List Token
  | .comparison p operator operands =>
    operator.comparisonTokens (stems.pathTokens p) (operands.map fun i => [stems.valueToken i])
  | .logical operator children => operator.groupTokens (stems.conditionsTokens children)

def conditionsTokens (stems : AliasStems) : List AliasedCondition → List (List Token)
  | [] => []
  | c :: rest => stems.conditionTokens c :: stems.conditionsTokens rest

end

theorem conditionsTokens_eq_map (stems : AliasStems) (children : List AliasedCondition) :
    stems.conditionsTokens children = children.map stems.conditionTokens := by
  induction children with
  | nil => rfl
  | cons c rest ih => rw [conditionsTokens, ih, List.map_cons]

end AliasStems

section

variable {stems : AliasStems} {text : List Char}

theorem isAlias_of_stem (stem : TableConfig.isStem marker text = true) (i : Nat) :
    IsAlias marker (text ++ Numeral.digits i) := by
  cases text with
  | nil => contradiction
  | cons first rest =>
    simp only [TableConfig.isStem, Bool.and_eq_true, decide_eq_true_eq, List.all_eq_true] at stem
    obtain ⟨⟨rfl, _⟩, all⟩ := stem
    refine ⟨rest ++ Numeral.digits i, rfl, ?_⟩
    intro c member
    rcases List.mem_append.mp member with inStem | digit
    · have allowed := all c inStem
      simp only [Bool.or_eq_true, decide_eq_true_eq] at allowed
      simp only [isWordChar, Bool.or_eq_true, decide_eq_true_eq]
      exact .inl (.inl allowed)
    · simp [isWordChar, Char.isAlphanum, Numeral.digits_isDigit digit]

theorem nameAlias_isAlias (admissible : stems.Admissible) (i : Nat) :
    IsAlias '#' (stems.nameAlias i).toList := by
  rw [AliasStems.nameAlias, String.toList_append, String.toList_ofList]
  exact isAlias_of_stem admissible.name i

theorem valueAlias_isAlias (admissible : stems.Admissible) (i : Nat) :
    IsAlias ':' (stems.valueAlias i).toList := by
  rw [AliasStems.valueAlias, String.toList_append, String.toList_ofList]
  exact isAlias_of_stem admissible.value i

theorem IsAlias.spells (isAlias : IsAlias marker text) (wordChar : isWordChar marker = true) :
    Spells text [.word text] := by
  obtain ⟨rest, rfl, all⟩ := isAlias
  exact spells_word (List.cons_ne_nil marker rest) (List.forall_mem_cons.mpr ⟨wordChar, all⟩)

theorem spells_indexText (n : Nat) : SpellsClosed (indexText n).toList
    [.mark '[', .word (Numeral.digits n), .mark ']'] := by
  have all : ∀ c ∈ Numeral.digits n, isWordChar c = true := fun c member => by
    simp [isWordChar, Char.isAlphanum, Numeral.digits_isDigit member]
  have digits := spells_word (Numeral.digits_ne_nil n) all
  have opening : SpellsClosed "[".toList [.mark '['] := fun _ => rfl
  have closing : SpellsClosed "]".toList [.mark ']'] := fun _ => rfl
  rw [indexText, String.toList_append, String.toList_append,
    String.toList_ofList (l := Numeral.digits n)]
  exact (opening.spells_append digits).append_closed closing fun _ => rfl

theorem startsApart_indexText (n : Nat) : StartsApart (indexText n).toList := by
  have opening : StartsApart "[".toList := fun _ => rfl
  rw [indexText, String.toList_append, String.toList_append]
  exact (opening.append _).append _

theorem spells_joinedText (admissible : stems.Admissible) (segment : Segment Nat) :
    Spells (segment.joinedText stems.nameAlias).toList (stems.joinedTokens segment) ∧
      StartsApart (segment.joinedText stems.nameAlias).toList := by
  cases segment with
  | field i =>
    have dot : SpellsClosed ".".toList [.mark '.'] := fun _ => rfl
    have apart : StartsApart ".".toList := fun _ => rfl
    rw [Segment.joinedText, String.toList_append]
    exact ⟨dot.spells_append ((nameAlias_isAlias admissible i).spells rfl), apart.append _⟩
  | index n => exact ⟨(spells_indexText n).spells, startsApart_indexText n⟩

theorem spells_pathText (admissible : stems.Admissible) (p : AliasedPath) :
    Spells (stems.pathText p).toList (stems.pathTokens p) := by
  have behind : ∀ (rest : AliasedPath) (front : List Char) (ts : List Token), Spells front ts →
      Spells (front ++ (String.join (rest.map (Segment.joinedText stems.nameAlias))).toList)
        (ts ++ rest.flatMap stems.joinedTokens) := by
    intro rest
    induction rest with
    | nil =>
      intro front ts spells
      simpa using spells
    | cons segment rest ih =>
      intro front ts spells
      obtain ⟨here, apart⟩ := spells_joinedText admissible segment
      have next := ih _ _ (spells.append here apart)
      simpa [List.append_assoc] using next
  cases p with
  | nil => exact fun _ _ => rfl
  | cons first rest =>
    have start : Spells (first.text stems.nameAlias).toList (stems.segmentTokens first) := by
      cases first with
      | field i => exact (nameAlias_isAlias admissible i).spells rfl
      | index n => exact (spells_indexText n).spells
    rw [AliasStems.pathText, Segment.joinText, String.toList_append]
    exact behind rest _ _ start

/-- Parts between an opening text and a closing parenthesis. -/
theorem spells_enclosed {separator : String} (opened : SpellsClosed (String.toList opening) front)
    (closed : SpellsClosed separator.toList between) (apart : StartsApart separator.toList)
    (each : List.Forall₂ (fun part ts => Spells (String.toList part) ts) parts tss) :
    Spells (opening ++ Text.join separator parts ++ ")").toList
      (front ++ joinTokens between tss ++ [.mark ')']) := by
  have closing : SpellsClosed ")".toList [.mark ')'] := fun _ => rfl
  rw [String.toList_append, String.toList_append]
  exact ((opened.spells_append (spells_join closed apart each)).append_closed closing
    fun _ => rfl).spells

theorem spells_call {name : String}
    (opening : SpellsClosed (name ++ "(").toList [.word name.toList, .mark '('])
    (each : List.Forall₂ (fun part ts => Spells (String.toList part) ts) arguments tss) :
    Spells (name ++ "(" ++ Text.join ", " arguments ++ ")").toList
      (.word name.toList :: .mark '(' :: (joinTokens [.mark ','] tss ++ [.mark ')'])) := by
  have comma : SpellsClosed ", ".toList [.mark ','] := fun _ => rfl
  exact spells_enclosed opening comma (fun _ => rfl) each

theorem spells_comparisonText (operator : Operator) (spells : Spells (String.toList target) ts)
    (each : List.Forall₂ (fun part us => Spells (String.toList part) us) operands uss) :
    Spells (operator.comparisonText target operands).toList
      (operator.comparisonTokens ts uss) := by
  have blank : SpellsClosed " ".toList [] := fun _ => rfl
  have listed : Spells (Text.join ", " operands).toList (joinTokens [.mark ','] uss) :=
    spells_join (fun _ => rfl) (fun _ => rfl) each
  cases operator with
  | compare comparator =>
    have compared := (((spells.append_closed blank fun _ => rfl).spells_append
      (spells_symbol comparator)).append_closed blank fun _ => rfl).spells_append listed
    simpa [Operator.comparisonText, Operator.comparisonTokens] using compared
  | between =>
    have keyword : SpellsClosed " BETWEEN ".toList [.word "BETWEEN".toList] := fun _ => rfl
    have bounds : Spells (Text.join " AND " operands).toList
        (joinTokens [.word "AND".toList] uss) := spells_join (fun _ => rfl) (fun _ => rfl) each
    have compared := (spells.append_closed keyword fun _ => rfl).spells_append bounds
    rw [Operator.comparisonText, Operator.comparisonTokens, String.toList_append,
      String.toList_append]
    simpa using compared
  | isIn =>
    have opening : SpellsClosed " IN (".toList [.word "IN".toList, .mark '('] := fun _ => rfl
    have closing : SpellsClosed ")".toList [.mark ')'] := fun _ => rfl
    have compared := ((spells.append_closed opening fun _ => rfl).spells_append
      listed).append_closed closing fun _ => rfl
    rw [Operator.comparisonText, Operator.comparisonTokens, String.toList_append,
      String.toList_append, String.toList_append]
    simpa using compared.spells
  | size comparator =>
    have opening : SpellsClosed "size(".toList [.word "size".toList, .mark '('] := fun _ => rfl
    have closing : SpellsClosed ") ".toList [.mark ')'] := fun _ => rfl
    have measured := (opening.spells_append spells).append_closed closing fun _ => rfl
    have compared := ((measured.spells_append (spells_symbol comparator)).append_closed blank
      fun _ => rfl).spells_append listed
    rw [Operator.comparisonText, Operator.comparisonTokens, String.toList_append,
      String.toList_append, String.toList_append, String.toList_append, String.toList_append]
    simpa using compared
  | beginsWith | attributeType | «exists» | notExists | contains =>
    exact spells_call (fun _ => rfl) (.cons spells each)

theorem spells_groupText (operator : LogicalOperator)
    (each : List.Forall₂ (fun part ts => Spells (String.toList part) ts) parts tss) :
    Spells (operator.groupText parts).toList (operator.groupTokens tss) := by
  have opening : SpellsClosed "(".toList [.mark '('] := fun _ => rfl
  cases operator with
  | not =>
    have negation : SpellsClosed "(NOT ".toList [.mark '(', .word "NOT".toList] := fun _ => rfl
    have blank : SpellsClosed " ".toList [] := fun _ => rfl
    exact spells_enclosed negation blank (fun _ => rfl) each
  | and =>
    have keyword : SpellsClosed " AND ".toList [.word "AND".toList] := fun _ => rfl
    exact spells_enclosed opening keyword (fun _ => rfl) each
  | or =>
    have keyword : SpellsClosed " OR ".toList [.word "OR".toList] := fun _ => rfl
    exact spells_enclosed opening keyword (fun _ => rfl) each

mutual

theorem spells_conditionText (admissible : stems.Admissible) (c : AliasedCondition) :
    Spells (stems.conditionText c).toList (stems.conditionTokens c) := by
  cases c with
  | comparison p operator operands =>
    rw [AliasStems.conditionText, AliasStems.conditionTokens]
    apply spells_comparisonText operator (spells_pathText admissible p)
    rw [List.forall₂_map_left_iff, List.forall₂_map_right_iff, List.forall₂_same]
    intro i _
    exact (valueAlias_isAlias admissible i).spells rfl
  | logical operator children =>
    rw [AliasStems.conditionText, AliasStems.conditionTokens]
    exact spells_groupText operator (spells_conditionTexts admissible children)

theorem spells_conditionTexts (admissible : stems.Admissible) (children : List AliasedCondition) :
    List.Forall₂ (fun part ts => Spells (String.toList part) ts) (stems.conditionTexts children)
      (stems.conditionsTokens children) := by
  cases children with
  | nil => exact .nil
  | cons c rest =>
    exact .cons (spells_conditionText admissible c) (spells_conditionTexts admissible rest)

end

end

end ItemSchema
