import ItemSchema.Json.Parser
import ItemSchema.Text.Split

/-! Reading values of other types from JSON trees, with the reasons why a tree does not hold one. -/
namespace ItemSchema

/-- `malformed`: the text is not JSON. `wrongKind`: a value of the wrong JSON type for its place. -/
inductive ReadError where
  | malformed
  | wrongKind
  | base64
  | missingField (name : String)
  | duplicateField (name : String)
  | unknownField (name : String) (known : List String)
  | notOneTag
  | unknownVariant (name : String) (known : List String)
  | variantPosition (position count : Nat)
  | notOneVariant
  deriving DecidableEq

namespace ReadError

def named (name : String) : String :=
  "`" ++ name ++ "`"

/-- The choice that an unknown name is met with. -/
def oneOf : List String → String
  | [only] => named only
  | [first, second] => named first ++ " or " ++ named second
  | names => "one of " ++ Text.join ", " (names.map named)

/-- What is wrong with a well-formed document of fitting types. -/
def detail? : ReadError → Option String
  | .malformed | .wrongKind | .base64 => none
  | .missingField name => some ("missing field " ++ named name)
  | .duplicateField name => some ("duplicate field " ++ named name)
  | .unknownField name known =>
    some ("unknown field " ++ named name ++ ", expected " ++ oneOf known)
  | .notOneTag => some "attribute value must have exactly one key"
  | .unknownVariant name known =>
    some ("unknown variant " ++ named name ++ ", expected " ++ oneOf known)
  | .variantPosition position count =>
    some ("invalid value: integer " ++ named (toString position) ++
      ", expected variant index 0 <= i < " ++ toString count)
  | .notOneVariant => some "invalid value: map, expected map with a single key"

def message : ReadError → String
  | .malformed => "the text is not JSON"
  | .wrongKind => "a value has the wrong type"
  | .base64 => "a text is not base64"
  | error => error.detail?.getD ""

end ReadError

namespace Json

/-- Reads the tree; text behind it counts after everything in it. -/
def Document.read (d : Document) (reader : Json → Except ReadError α) : Except ReadError α := do
  let value ← reader d.root
  if d.trailing then throw .malformed
  return value

def readString : Json → Except ReadError String
  | .string s => .ok s
  | .broken _ => .error .malformed
  | _ => .error .wrongKind

def readBool : Json → Except ReadError Bool
  | .bool b => .ok b
  | .broken _ => .error .malformed
  | _ => .error .wrongKind

def readNumber : Json → Except ReadError Number
  | .number n => .ok n
  | .broken _ => .error .malformed
  | _ => .error .wrongKind

def readItems : Json → Except ReadError (List Json)
  | .array items => .ok items
  | .broken _ => .error .malformed
  | _ => .error .wrongKind

/-- The members of an object that are there, and the fault behind them. -/
def readMembers : Json → Except ReadError (List (String × Json) × Option Fault)
  | .object members fault => .ok (members, fault)
  | .broken _ => .error .malformed
  | _ => .error .wrongKind

/-- An object may not stop at a fault. -/
def noFault (fault : Option Fault) : Except ReadError Unit :=
  if fault.isSome then .error .malformed else .ok ()

def readStrings (j : Json) : Except ReadError (List String) := do
  (← readItems j).mapM readString

/-- A null stands for an absent value. -/
def readOptional (reader : Json → Except ReadError α) : Json → Except ReadError (Option α)
  | .null => .ok none
  | j => some <$> reader j

/-- The value of a name in a list of named values. -/
def variant (variants : List (String × α)) (name : String) : Except ReadError α :=
  match variants.lookup name with
  | some value => .ok value
  | none => .error (.unknownVariant name (variants.map Prod.fst))

/-- One of some named values: its name, or an object with the name as its only key and nothing
behind it. Inside a larger description an empty object is nothing as well. -/
def readVariant (described : Bool) (variants : List (String × α)) : Json → Except ReadError α
  | .string name => variant variants name
  | .object [(name, content)] none => do
    let value ← variant variants name
    match content with
    | .null => return value
    | .object [] none => if described then return value else throw .wrongKind
    | _ => throw .wrongKind
  | .object _ none => .error .notOneVariant
  | .object _ (some _) => .error .malformed
  | .broken _ => .error .malformed
  | _ => .error .wrongKind

end Json

end ItemSchema
