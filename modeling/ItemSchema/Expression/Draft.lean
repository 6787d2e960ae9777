import ItemSchema.Expression.Comparison
import ItemSchema.Spelling

/-! Conditions as they are written down by callers, with paths and perhaps operators that may be
text, and their check against a view. -/
namespace ItemSchema

inductive ConditionDraft where
  | comparison (path : PathRef) (operator : Operator) (value : Value)
  | named (path : PathRef) (operator : String) (value : Value)
  | attributeType (path : PathRef) (tag : String)
  | logical (operator : LogicalOperator) (children : List ConditionDraft)

namespace ConditionDraft

def between (path : PathRef) (low high : Value) : ConditionDraft :=
  .comparison path .between (.list [low, high])

def isIn (path : PathRef) (candidates : List Value) : ConditionDraft :=
  .comparison path .isIn (.list candidates)

def present (path : PathRef) : ConditionDraft :=
  .comparison path .exists .null

def absent (path : PathRef) : ConditionDraft :=
  .comparison path .notExists .null

end ConditionDraft

namespace SchemaView

mutual

/-- The condition of a draft. Conditions that are joined are checked in their order, and the first
fault counts. -/
def condition (view : SchemaView) : ConditionDraft → Except Error Condition
  | .comparison path operator v => do
    view.compare (← path.toPath) operator v
  | .named path operator v => do
    let p ← path.toPath
    view.compare p (← Operator.parse operator) v
  | .attributeType path tag => do
    let tag ← WireTag.parse tag
    view.compare (← path.toPath) .attributeType (.string tag.name)
  | .logical operator children => do
    Condition.join operator (← view.conditions children)

def conditions (view : SchemaView) : List ConditionDraft → Except Error (List Condition)
  | [] => .ok []
  | draft :: rest => do
    let c ← view.condition draft
    return c :: (← view.conditions rest)

end

end SchemaView

end ItemSchema
