import ItemSchema.Error
import ItemSchema.Instant.Printer
import ItemSchema.Json.Printer
import ItemSchema.Numeral.Decimal.Reader
import ItemSchema.Text.Base64

/-! Plain values and JSON documents. A document has neither dates nor sets, so they become texts and
arrays, and a schema has to tell them apart again. -/
namespace ItemSchema

mutual

/-- Of members of one name the last one counts; members are taken in the order of their names. A
number is taken from its text and must be one that a decimal can hold. -/
def Value.ofJson : Json → Except Error Value
  | .null => .ok .null
  | .bool b => .ok (.bool b)
  | .number n =>
    match Decimal.ofText? n.toText with
    | some d => .ok (.number d)
    | none => .error (.typeMismatch .json .decimal (.text n.toText))
  | .string s => .ok (.string s)
  | .array items => .list <$> Value.ofItems items
  | .object members none => do
    return .map (← Record.collect (Record.ofList (Value.ofMembers members)))
  | .object _ (some _) => .error (.json .malformed)
  | .broken _ => .error (.json .malformed)

def Value.ofItems : List Json → Except Error (List Value)
  | [] => .ok []
  | item :: rest => do
    let v ← Value.ofJson item
    return v :: (← Value.ofItems rest)

/-- What each member gives, a value or its failure. -/
def Value.ofMembers : List (String × Json) → List (String × Except Error Value)
  | [] => []
  | (name, value) :: rest => (name, Value.ofJson value) :: Value.ofMembers rest

end

/-- A JSON text as a plain value. -/
def Value.ofText (text : String) : Except Error Value := do
  let read (j : Json) : Except ReadError Json := if j.intact then .ok j else .error .malformed
  let j ← ((Json.parse text).read read).mapError .json
  Value.ofJson j

/-- A number in a document; a text that is no JSON number stays a text. -/
def Value.numberToJson (text : String) : Json :=
  match Json.Token.ofText text with
  | [.number n] => .number n
  | _ => .string text

mutual

/-- Numbers are written without zeros at the end, dates as timestamps, binaries in base 64. -/
def Value.toJson : Value → Json
  | .null => .null
  | .bool b => .bool b
  | .number d => Value.numberToJson d.normalize.toText
  | .bigint n => Value.numberToJson n.toText
  | .string s => .string s
  | .date t => .string t.toText
  | .binary bytes => .string (Text.Base64.encode bytes)
  | .set members => .array (Value.itemsToJson members)
  | .list items => .array (Value.itemsToJson items)
  | .map fields => .object (Value.fieldsToJson fields) none

def Value.itemsToJson : List Value → List Json
  | [] => []
  | item :: rest => item.toJson :: Value.itemsToJson rest

def Value.fieldsToJson : List (String × Value) → List (String × Json)
  | [] => []
  | (name, v) :: rest => (name, v.toJson) :: Value.fieldsToJson rest

end

end ItemSchema
