import ItemSchema.Attribute
import ItemSchema.Expression.Operator
import ItemSchema.Json.Reading
import ItemSchema.Path.Reader
import ItemSchema.Request.Option
import ItemSchema.Value
import ItemSchema.Wire

/-! The ways in which reading, checking, encoding, decoding and sending can fail, and the text that
tells people about each. -/
namespace ItemSchema

/-- Where something is wrong: at a path of an item, or in an input that has no path. -/
inductive Location where
  | path (p : Path)
  | key
  | condition
  | request
  | json
  | attributeType
  deriving DecidableEq

def Location.text : Location → String
  | .path p => p.toText
  | .key => "<key>"
  | .condition => "<condition>"
  | .request => "<request>"
  | .json => "<json>"
  | .attributeType => "<attribute_type>"

/-- What a value should have been. -/
inductive Expectation where
  | scalar (of : ScalarType)
  | set (of : SetType)
  | setElement (of : SetType)
  | list
  | map
  | timestamp
  | wholeMillis
  | leadingText
  | typeTag
  | tagName
  | decimal
  deriving DecidableEq

def Expectation.text : Expectation → String
  | .scalar of => of.name
  | .set of => of.name
  | .setElement of => of.name ++ " element"
  | .list => "list"
  | .map => "map"
  | .timestamp => "ISO-8601 date"
  | .wholeMillis => "date with millisecond precision"
  | .leadingText => "string prefix"
  | .typeTag => "attribute type tag"
  | .tagName => "one of " ++ Text.join ", " WireTag.names
  | .decimal => "decimal number"

/-- What a value was instead: a value of another kind, or a text that does not denote one. -/
inductive Found where
  | kind (kind : ValueKind)
  | text (text : String)
  deriving DecidableEq

def Found.toText : Found → String
  | .kind k => k.name
  | .text content => content

/-- What a request cannot do without. -/
inductive RequestPart where
  | keyCondition
  | key
  | item
  | action
  deriving DecidableEq

def RequestPart.text : RequestPart → String
  | .keyCondition => "a key condition"
  | .key => "a key"
  | .item => "an item"
  | .action => "at least one action"

/-- Most candidates that the store takes in one `IN`. -/
def maxCandidates : Nat := 100

/-- What is wrong with something that an operator or a request is given. -/
inductive OperandFault where
  | negatedCount (count : Nat)
  | noConditions (operator : LogicalOperator)
  | conditionCount (operator : LogicalOperator) (count : Nat)
  | operandCount (operator : Operator) (count : Nat)
  | notBounds (kind : ValueKind)
  | boundCount (count : Nat)
  | notCandidates (kind : ValueKind)
  | candidateCount (count : Nat)
  | takesNoValue (operator : Operator)
  | emptySet
  | missingKeyAttribute
  | keyAttributeUpdate
  | deleteFrom (kind : AttributeKind)
  | missingPart (operation : Operation) (part : RequestPart)
  | returnValues (operation : Operation) (mode : ReturnValues)
  | zeroLimit
  | windowTooLarge (limit offset : Nat)
  deriving DecidableEq

/-- The operation in a sentence. -/
def Operation.word : Operation → String
  | .query => "query"
  | .scan => "scan"
  | .get => "get"
  | .put => "put"
  | .update => "update"
  | .delete => "delete"

def OperandFault.message : OperandFault → String
  | .negatedCount count => "NOT takes exactly one condition, got " ++ toString count
  | .noConditions operator => operator.keyword ++ " requires at least one condition"
  | .conditionCount operator count =>
    operator.keyword ++ " cannot take " ++ toString count ++ " conditions"
  | .operandCount operator count =>
    operator.text ++ " cannot take " ++ toString count ++ " operands"
  | .notBounds kind => "BETWEEN takes a list of values, got " ++ kind.name
  | .boundCount count => "BETWEEN takes exactly two values, got " ++ toString count
  | .notCandidates kind => "IN takes a list of values, got " ++ kind.name
  | .candidateCount count =>
    "IN takes between 1 and " ++ toString maxCandidates ++ " values, got " ++ toString count
  | .takesNoValue operator => operator.text ++ " takes no value"
  | .emptySet => "sets cannot be empty"
  | .missingKeyAttribute => "key attribute is required"
  | .keyAttributeUpdate => "key attributes cannot be updated"
  | .deleteFrom kind => "DELETE applies to sets, not " ++ kind.name
  | .missingPart operation part => operation.word ++ " requires " ++ part.text
  | .returnValues operation mode =>
    operation.name ++ " does not support ReturnValues " ++ mode.name
  | .zeroLimit => "limit must be at least 1"
  | .windowTooLarge limit offset =>
    "limit " ++ toString limit ++ " plus offset " ++ toString offset ++ " overflows"

inductive SchemaFault where
  | duplicate (p : Path)
  | emptyName
  | nestedKey (p : Path)
  | keyCounts (partitionKeys sortKeys : Nat)
  | partitionKeyCount (count : Nat)
  deriving DecidableEq

def SchemaFault.message : SchemaFault → String
  | .duplicate p => "duplicate attribute '" ++ p.toText ++ "'"
  | .emptyName => "attribute name cannot be empty"
  | .nestedKey p => "key attribute '" ++ p.toText ++ "' must be a top-level field"
  | .keyCounts partitionKeys sortKeys =>
    "schema declares " ++ toString partitionKeys ++ " partition keys and " ++ toString sortKeys ++
      " sort keys"
  | .partitionKeyCount count =>
    "entity schema must have exactly one partition key, found " ++ toString count

inductive ConfigFault where
  | emptyTableName
  | aliasStem (stem : String) (marker : Char)
  deriving DecidableEq

def ConfigFault.message : ConfigFault → String
  | .emptyTableName => "table name cannot be empty"
  | .aliasStem stem marker =>
    "alias prefix '" ++ stem ++ "' must start with '" ++ marker.toString ++
      "' followed by letters, digits or '_'"

/-- Failures that the store reports itself, or the way to it. -/
inductive StoreError where
  | service (code message : String)
  | transport (message : String)
  deriving DecidableEq

def StoreError.message : StoreError → String
  | .service code message => code ++ ": " ++ message
  | .transport message => "Transport error: " ++ message

inductive Error where
  | pathNotFound (p : Path)
  | invalidSegment (p : Path) (segment : Segment String)
  | invalidPath (fault : Path.Fault)
  | illegalOperator (p : Path) (operator : Operator) (kind : AttributeKind)
  | typeMismatch (location : Location) (expected : Expectation) (found : Found)
  | unknownField (location : Location) (field : String)
  | missingItemSchema (p : Path)
  | tagMismatch (p : Path) (expected found : WireTag)
  | numberOutOfRange (p : Path) (number : String)
  | invalidOperand (location : Location) (fault : OperandFault)
  | unknownOperator (text : String)
  | invalidSchema (fault : SchemaFault)
  | invalidConfig (fault : ConfigFault)
  | json (error : ReadError)
  | store (error : StoreError)
  deriving DecidableEq

def Error.message : Error → String
  | .pathNotFound p => "Path not found: " ++ p.toText
  | .invalidSegment p segment =>
    "Invalid path segment '" ++ segment.text id ++ "' in " ++ p.toText
  | .invalidPath fault => "Invalid path: " ++ fault.message
  | .illegalOperator p operator kind =>
    "Operator '" ++ operator.text ++ "' is not allowed for " ++ kind.name ++ " attribute at " ++
      p.toText
  | .typeMismatch location expected found =>
    "Type mismatch at " ++ location.text ++ ": expected " ++ expected.text ++ ", got " ++
      found.toText
  | .unknownField location field => "Unknown field '" ++ field ++ "' at " ++ location.text
  | .missingItemSchema p => "List at " ++ p.toText ++ " has no item schema"
  | .tagMismatch p expected found =>
    "Decode error at " ++ p.toText ++ ": expected " ++ expected.name ++ " tag, got " ++ found.name
  | .numberOutOfRange p number =>
    "Number at " ++ p.toText ++ " is outside the supported range: " ++ number
  | .invalidOperand location fault =>
    "Invalid operand at " ++ location.text ++ ": " ++ fault.message
  | .unknownOperator text => "Unknown operator: " ++ text
  | .invalidSchema fault => "Invalid schema: " ++ fault.message
  | .invalidConfig fault => "Invalid configuration: " ++ fault.message
  | .json error => "JSON serialization error: " ++ error.message
  | .store error => "Store error: " ++ error.message

end ItemSchema
