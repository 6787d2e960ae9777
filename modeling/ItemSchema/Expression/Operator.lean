import ItemSchema.Text.Blank

/-! Operators of conditions and their texts. -/
namespace ItemSchema

inductive Comparator where
  | eq
  | ne
  | lt
  | le
  | gt
  | ge
  deriving DecidableEq

namespace Comparator

def all : List Comparator :=
  [.eq, .ne, .lt, .le, .gt, .ge]

def symbol : Comparator → String
  | .eq => "="
  | .ne => "<>"
  | .lt => "<"
  | .le => "<="
  | .gt => ">"
  | .ge => ">="

def ofSymbol? (text : String) : Option Comparator :=
  all.find? fun comparator => comparator.symbol = text

def label : Comparator → String
  | .eq => "Eq"
  | .ne => "Ne"
  | .lt => "Lt"
  | .le => "Le"
  | .gt => "Gt"
  | .ge => "Ge"

end Comparator

/-- Operators of a comparison; `size` compares the size of its attribute. -/
inductive Operator where
  | compare (comparator : Comparator)
  | beginsWith
  | between
  | isIn
  | attributeType
  | exists
  | notExists
  | contains
  | size (comparator : Comparator)
  deriving DecidableEq

namespace Operator

/-- Whether the operator is written as a function call. -/
def isFunction : Operator → Bool
  | .compare _ | .between | .isIn => false
  | .beginsWith | .attributeType | .exists | .notExists | .contains | .size _ => true

/-- A comparison of sizes for equality is named by the function alone. -/
def text : Operator → String
  | .compare comparator => comparator.symbol
  | .beginsWith => "begins_with"
  | .between => "between"
  | .isIn => "in"
  | .attributeType => "attribute_type"
  | .exists => "attribute_exists"
  | .notExists => "attribute_not_exists"
  | .contains => "contains"
  | .size .eq => "size"
  | .size comparator => "size " ++ comparator.symbol

/-- The family of the operator with its comparator, for diagnostics. -/
def label : Operator → String
  | .compare comparator => "Compare(" ++ comparator.label ++ ")"
  | .beginsWith => "BeginsWith"
  | .between => "Between"
  | .isIn => "In"
  | .attributeType => "AttributeType"
  | .exists => "AttributeExists"
  | .notExists => "AttributeNotExists"
  | .contains => "Contains"
  | .size comparator => "Size(" ++ comparator.label ++ ")"

/-- The operators that are named by a word of their own. -/
def worded : List Operator :=
  [.beginsWith, .between, .isIn, .attributeType, .exists, .notExists, .contains]

/-- The comparator behind `size`; without one sizes are compared for equality. -/
def sizeComparator? (rest : List Char) : Option Comparator :=
  let rest := Text.trim rest
  if rest.isEmpty then some .eq else Comparator.ofSymbol? (String.ofList rest)

/-- Blanks around the text and the case of its ASCII letters do not matter. -/
def ofText? (text : String) : Option Operator :=
  let chars := (Text.trim text.toList).map Char.toLower
  let word := String.ofList chars
  (Comparator.ofSymbol? word).map compare
    <|> (if "size".toList.isPrefixOf chars then (sizeComparator? (chars.drop 4)).map size else none)
    <|> worded.find? fun operator => operator.text = word

end Operator

/-- Operators that join conditions. -/
inductive LogicalOperator where
  | and
  | or
  | not
  deriving DecidableEq

def LogicalOperator.keyword : LogicalOperator → String
  | .and => "AND"
  | .or => "OR"
  | .not => "NOT"

end ItemSchema
