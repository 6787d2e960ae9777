import ItemSchema.Attribute
import ItemSchema.Expression.Operator

/-! Which operators apply to which attributes: a table by kind, and on top of it what the data must
be for the functions on texts and sizes. -/
namespace ItemSchema

/-- The entry for an operator in the table. Sizes have one, whatever they are compared by. -/
def Operator.family : Operator → Operator
  | .size _ => .size .eq
  | operator => operator

namespace AttributeKind

def operators : AttributeKind → List Operator
  | .partitionKey _ => [.compare .eq]
  | .sortKey _ =>
    [.compare .eq, .compare .lt, .compare .le, .compare .gt, .compare .ge, .beginsWith, .between]
  | .scalar _ | .set _ | .list | .map =>
    Comparator.all.map .compare ++
      [.beginsWith, .between, .isIn, .attributeType, .exists, .notExists, .contains, .size .eq]

def isText (kind : AttributeKind) : Bool :=
  kind.scalarType? = some .string

/-- Whether the data is of a form that the operator can look into. -/
def hasData : AttributeKind → Operator → Bool
  | kind, .beginsWith => kind.scalarType?.any ScalarType.isStringLike
  | .set _, .contains | .list, .contains => true
  | kind, .contains => kind.isText
  | .set _, .size _ | .list, .size _ | .map, .size _ => true
  | kind, .size _ => kind.isText
  | _, _ => true

def admits (kind : AttributeKind) (operator : Operator) : Bool :=
  kind.operators.contains operator.family && kind.hasData operator

end AttributeKind

end ItemSchema
