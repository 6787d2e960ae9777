import ItemSchema.Expression.Update
import ItemSchema.Text.Split

/-! The text of expressions over aliases: conditions, projections and updates. -/
namespace ItemSchema

abbrev AliasedCondition := ConditionTree Nat Nat

/-- The text of a comparison of a target with operands. -/
def Operator.comparisonText (operator : Operator) (target : String) (operands : List String) :
    String :=
  match operator with
  | .compare comparator =>
    target ++ " " ++ comparator.symbol ++ " " ++ Text.join ", " operands
  | .between => target ++ " BETWEEN " ++ Text.join " AND " operands
  | .isIn => target ++ " IN (" ++ Text.join ", " operands ++ ")"
  | .size comparator =>
    "size(" ++ target ++ ") " ++ comparator.symbol ++ " " ++ Text.join ", " operands
  | .beginsWith | .attributeType | .exists | .notExists | .contains =>
    operator.text ++ "(" ++ Text.join ", " (target :: operands) ++ ")"

/-- The text of joined conditions. Every group is in parentheses, so precedence does not matter. -/
def LogicalOperator.groupText (operator : LogicalOperator) (parts : List String) : String :=
  match operator with
  | .not => "(NOT " ++ Text.join " " parts ++ ")"
  | .and => "(" ++ Text.join " AND " parts ++ ")"
  | .or => "(" ++ Text.join " OR " parts ++ ")"

namespace AliasStems

def pathText (stems : AliasStems) (p : AliasedPath) : String :=
  Segment.joinText stems.nameAlias p

mutual

def conditionText (stems : AliasStems) : AliasedCondition → String
  | .comparison p operator operands =>
    operator.comparisonText (stems.pathText p) (operands.map stems.valueAlias)
  | .logical operator children => operator.groupText (stems.conditionTexts children)

def conditionTexts (stems : AliasStems) : List AliasedCondition → List String
  | [] => []
  | c :: rest => stems.conditionText c :: stems.conditionTexts rest

end

def projectionText (stems : AliasStems) (paths : List AliasedPath) : String :=
  Text.join ", " (paths.map stems.pathText)

/-- What an action adds to the clause with the keyword. -/
def actionText? (stems : AliasStems) : UpdateKeyword → AliasedAction → Option String
  | .set, .set p i => some (stems.pathText p ++ " = " ++ stems.valueAlias i)
  | .remove, .remove p => some (stems.pathText p)
  | .delete, .delete p i => some (stems.pathText p ++ " " ++ stems.valueAlias i)
  | _, _ => none

/-- A clause of an update, unless there is nothing in it. -/
def clauseText? (stems : AliasStems) (actions : List AliasedAction) (keyword : UpdateKeyword) :
    Option String :=
  match actions.filterMap (stems.actionText? keyword) with
  | [] => none
  | parts => some (keyword.text ++ " " ++ Text.join ", " parts)

/-- Actions are grouped by kind and keep their order inside a group. -/
def updateText (stems : AliasStems) (actions : List AliasedAction) : String :=
  Text.join " " (UpdateKeyword.all.filterMap (stems.clauseText? actions))

end AliasStems

end ItemSchema
