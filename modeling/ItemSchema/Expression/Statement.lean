import ItemSchema.Expression.Printer

/-! Compiled expressions. Several expressions of one request share their aliases, so compiling takes
the aliases that there are and gives those that there are then. A tree that no one has checked may
have a wrong number of operands or conditions somewhere; compiling it stops there, and the aliases
up to there remain. -/
namespace ItemSchema

def checkOperandCount (p : Path) (operator : Operator) (count : Nat) : Except Error Unit :=
  if operator.admitsCount count then .ok ()
  else .error (.invalidOperand (.path p) (.operandCount operator count))

def checkConditionCount (operator : LogicalOperator) (count : Nat) : Except Error Unit :=
  if operator.admitsCount count then .ok ()
  else .error (.invalidOperand .condition (.conditionCount operator count))

namespace Aliases

mutual

def condition (t : Aliases) : Condition → Aliases × Except Error AliasedCondition
  | .comparison p operator operands =>
    match checkOperandCount p operator operands.length with
    | .error e => (t, .error e)
    | .ok () =>
      let (t, p) := t.path p
      let (t, operands) := t.operands operands
      (t, .ok (.comparison p operator operands))
  | .logical operator children =>
    match checkConditionCount operator children.length with
    | .error e => (t, .error e)
    | .ok () =>
      let (t, children) := t.conditions children
      (t, .logical operator <$> children)

def conditions (t : Aliases) : List Condition → Aliases × Except Error (List AliasedCondition)
  | [] => (t, .ok [])
  | c :: rest =>
    match t.condition c with
    | (t, .error e) => (t, .error e)
    | (t, .ok first) =>
      let (t, others) := t.conditions rest
      (t, (first :: ·) <$> others)

end

def compileCondition (t : Aliases) (stems : AliasStems) (c : Condition) :
    Aliases × Except Error String :=
  let (t, aliased) := t.condition c
  (t, stems.conditionText <$> aliased)

def compileProjection (t : Aliases) (stems : AliasStems) (paths : List Path) : Aliases × String :=
  let (t, aliased) := t.paths paths
  (t, stems.projectionText aliased)

def compileUpdate (t : Aliases) (stems : AliasStems) (actions : List Action) : Aliases × String :=
  let (t, aliased) := t.actions actions
  (t, stems.updateText aliased)

end Aliases

/-- An expression that stands alone, with the tables of its aliases. -/
structure Statement where
  expression : String
  tables : AliasTables

def Condition.compile (c : Condition) (stems : AliasStems) : Except Error Statement :=
  let (t, expression) := Aliases.empty.compileCondition stems c
  (fun text => ⟨text, t.tables stems⟩) <$> expression

end ItemSchema
