import ItemSchema.Expression.Condition
import ItemSchema.Proofs.Expression.Token

/-! Conditions read back from their tokens by the grammar of expressions. As nothing but groups
binds conditions, the reader only keeps the groups that are open. -/
namespace ItemSchema.Expression

/-- A condition over the texts of aliases. -/
abbrev WrittenCondition := ConditionTree String String

/-- A word that starts with the marker. -/
def marked? (marker : Char) : Token → Option String
  | .word (first :: rest) =>
    if first = marker then some (String.ofList (first :: rest)) else none
  | _ => none

def nameAlias? : Token → Option String :=
  marked? '#'

def valueAlias? : Token → Option String :=
  marked? ':'

/-- The segments behind the first one, and the tokens behind the path. -/
def readSegments : List Token → List (Segment String) × List Token
  | .mark '.' :: name :: rest =>
    match nameAlias? name with
    | some name =>
      let (segments, rest) := readSegments rest
      (.field name :: segments, rest)
    | none => ([], .mark '.' :: name :: rest)
  | .mark '[' :: .word digits :: .mark ']' :: rest =>
    match Numeral.natural? digits with
    | some n =>
      let (segments, rest) := readSegments rest
      (.index n :: segments, rest)
    | none => ([], .mark '[' :: .word digits :: .mark ']' :: rest)
  | rest => ([], rest)

def readPath : List Token → Option (List (Segment String) × List Token)
  | [] => none
  | name :: rest => do
    let name ← nameAlias? name
    let (segments, rest) := readSegments rest
    return (.field name :: segments, rest)

/-- Operands with commas between them up to a closing parenthesis. -/
def readOperands : List Token → Option (List String × List Token)
  | operand :: .mark ')' :: rest => do
    return ([← valueAlias? operand], rest)
  | operand :: .mark ',' :: rest => do
    let first ← valueAlias? operand
    let (others, rest) ← readOperands rest
    return (first :: others, rest)
  | _ => none

/-- A comparison sign and its operand. -/
def readCompared : List Token → Option (Comparator × String × List Token)
  | .symbol symbol :: operand :: rest => do
    let comparator ← Comparator.ofSymbol? (String.ofList symbol)
    return (comparator, ← valueAlias? operand, rest)
  | _ => none

/-- What is asked about the attribute at a path. -/
def readQuestion (p : List (Segment String)) : List Token → Option (WrittenCondition × List Token)
  | .word keyword :: rest =>
    if keyword = "BETWEEN".toList then
      match rest with
      | low :: .word between :: high :: rest =>
        if between = "AND".toList then do
          return (.comparison p .between [← valueAlias? low, ← valueAlias? high], rest)
        else none
      | _ => none
    else if keyword = "IN".toList then
      match rest with
      | .mark '(' :: rest => do
        let (operands, rest) ← readOperands rest
        return (.comparison p .isIn operands, rest)
      | _ => none
    else none
  | tokens => do
    let (comparator, operand, rest) ← readCompared tokens
    return (.comparison p (.compare comparator) [operand], rest)

/-- The functions that hold or do not hold. -/
def function? (name : List Char) : Option Operator :=
  [Operator.beginsWith, .attributeType, .exists, .notExists, .contains].find? fun operator =>
    operator.text.toList = name

/-- A function call behind its opening parenthesis. -/
def readCall (name : List Char) (tokens : List Token) : Option (WrittenCondition × List Token) := do
  let (p, rest) ← readPath tokens
  match rest with
  | .mark ')' :: rest =>
    if name = "size".toList then do
      let (comparator, operand, rest) ← readCompared rest
      return (.comparison p (.size comparator) [operand], rest)
    else do
      return (.comparison p (← function? name) [], rest)
  | .mark ',' :: rest => do
    let (operands, rest) ← readOperands rest
    return (.comparison p (← function? name) operands, rest)
  | _ => none

def readComparison : List Token → Option (WrittenCondition × List Token)
  | .word name :: .mark '(' :: rest => readCall name rest
  | tokens => do
    let (p, rest) ← readPath tokens
    readQuestion p rest

/-- A group that is open, its conditions last first. It has an operator as soon as one is read. -/
structure Group where
  operator : Option LogicalOperator
  parts : List WrittenCondition

/-- The group with its last condition. -/
def Group.close (group : Group) (c : WrittenCondition) : WrittenCondition :=
  .logical (group.operator.getD .and) (c :: group.parts).reverse

/-- The group with a condition and an operator behind that, which is the same for a whole group. -/
def Group.extend? (group : Group) (c : WrittenCondition) (keyword : List Char) : Option Group := do
  let operator ← [LogicalOperator.and, .or].find? fun operator => operator.keyword.toList = keyword
  if group.operator.all (· = operator) then some ⟨operator, c :: group.parts⟩ else none

mutual

/-- Reads on where a condition starts. -/
def readIn (groups : List Group) : List Token → Option WrittenCondition
  | .mark '(' :: rest => readIn (⟨none, []⟩ :: groups) rest
  | .word word :: rest =>
    if word = "NOT".toList then
      match groups with
      | ⟨none, []⟩ :: outer => readIn (⟨some .not, []⟩ :: outer) rest
      | _ => none
    else
      match readComparison (.word word :: rest) with
      | some (c, later) => if later.length ≤ rest.length then resume c groups later else none
      | none => none
  | _ => none
termination_by tokens => tokens.length

/-- Reads on behind a condition. -/
def resume (c : WrittenCondition) : List Group → List Token → Option WrittenCondition
  | [], [] => some c
  | group :: outer, .mark ')' :: rest => resume (group.close c) outer rest
  | group :: outer, .word keyword :: rest =>
    match group.extend? c keyword with
    | some group => readIn (group :: outer) rest
    | none => none
  | _, _ => none
termination_by _ tokens => tokens.length

end

def readCondition (text : String) : Option WrittenCondition :=
  readIn [] (tokens text)

end ItemSchema.Expression
