import ItemSchema.Error

/-! Conditions: comparisons of attributes with operands, joined by logical operators. -/
namespace ItemSchema

/-- A tree of comparisons. Names and operands are of any kind: those of the store or those that
stand for them in an expression. -/
inductive ConditionTree (ν ω : Type) where
  | comparison (p : List (Segment ν)) (operator : Operator) (operands : List ω)
  | logical (operator : LogicalOperator) (children : List (ConditionTree ν ω))

abbrev Condition := ConditionTree String Wire

namespace ConditionTree

mutual

/-- A comparison alone has depth 1. -/
def depth : ConditionTree ν ω → Nat
  | .comparison .. => 1
  | .logical _ children => 1 + depthOfAll children

/-- The greatest depth of some trees. -/
def depthOfAll : List (ConditionTree ν ω) → Nat
  | [] => 0
  | c :: rest => max c.depth (depthOfAll rest)

end

end ConditionTree

/-- A negation has one condition, all others have at least one. -/
def LogicalOperator.admitsCount : LogicalOperator → Nat → Bool
  | .not, count => count = 1
  | .and, count | .or, count => 0 < count

/-- How many operands an operator takes. -/
def Operator.admitsCount : Operator → Nat → Bool
  | .exists, count | .notExists, count => count = 0
  | .between, count => count = 2
  | .isIn, count => 1 ≤ count && count ≤ maxCandidates
  | .compare _, count | .beginsWith, count | .attributeType, count | .contains, count
  | .size _, count => count = 1

/-- Joins conditions, if there are as many as the operator takes. -/
def Condition.join (operator : LogicalOperator) (children : List Condition) :
    Except Error Condition :=
  if operator.admitsCount children.length then .ok (.logical operator children)
  else
    let fault : OperandFault := match operator with
      | .not => .negatedCount children.length
      | .and | .or => .noConditions operator
    .error (.invalidOperand .condition fault)

end ItemSchema
