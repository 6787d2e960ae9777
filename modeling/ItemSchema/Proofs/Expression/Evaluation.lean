import ItemSchema.Proofs.Expression.Tree
import Mathlib.Data.List.Basic

/-! The truth of conditions. Comparisons may mean anything; the logical operators mean what they
say, so it does not matter by which operator a group of one condition is joined. -/
namespace ItemSchema

/-- The truth of joined conditions. -/
def LogicalOperator.eval : LogicalOperator → List Bool → Bool
  | .and, children => children.all id
  | .or, children => children.any id
  | .not, children => !children.all id

theorem LogicalOperator.eval_ofGroup (operator : LogicalOperator) (children : List Bool) :
    (operator.ofGroup children.length).eval children = operator.eval children := by
  cases operator with
  | and | not => rfl
  | or =>
    match children with
    | [] | _ :: _ :: _ => rfl
    | [child] => simp [ofGroup, eval]

namespace ConditionTree

variable {ν ω : Type} (meaning : List (Segment ν) → Operator → List ω → Bool)

mutual

/-- The truth of a condition, given that of comparisons. -/
def eval : ConditionTree ν ω → Bool
  | .comparison p operator operands => meaning p operator operands
  | .logical operator children => operator.eval (evalAll children)

def evalAll : List (ConditionTree ν ω) → List Bool
  | [] => []
  | c :: rest => c.eval :: evalAll rest

end

theorem evalAll_eq_map (children : List (ConditionTree ν ω)) :
    evalAll meaning children = children.map (eval meaning) := by
  induction children with
  | nil => rfl
  | cons c rest ih => rw [evalAll, ih, List.map_cons]

theorem eval_logical (operator : LogicalOperator) (children : List (ConditionTree ν ω)) :
    eval meaning (.logical operator children) = operator.eval (children.map (eval meaning)) := by
  rw [eval, evalAll_eq_map]

theorem eval_grouped (c : ConditionTree ν ω) : eval meaning c.grouped = eval meaning c := by
  induction c using children_induction with
  | comparison p operator operands => rfl
  | logical operator children ih =>
    have same : children.map (fun c => eval meaning c.grouped) = children.map (eval meaning) :=
      List.map_congr_left ih
    rw [grouped, groupedAll_eq_map, eval_logical, eval_logical, List.map_map, Function.comp_def,
      same]
    simpa using operator.eval_ofGroup (children.map (eval meaning))

end ConditionTree

end ItemSchema
