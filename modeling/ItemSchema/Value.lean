import ItemSchema.Instant
import ItemSchema.Numeral.Decimal
import ItemSchema.Numeral.Int128
import ItemSchema.Record

/-! Plain values, as callers hand them in and get them back. -/
namespace ItemSchema

inductive ValueKind where
  | null
  | boolean
  | number
  | bigint
  | string
  | date
  | binary
  | set
  | list
  | map
  deriving DecidableEq

def ValueKind.name : ValueKind → String
  | .null => "null"
  | .boolean => "boolean"
  | .number => "number"
  | .bigint => "bigint"
  | .string => "string"
  | .date => "date"
  | .binary => "binary"
  | .set => "set"
  | .list => "list"
  | .map => "map"

/-- The members of a set keep order and repetitions; the fields of a map are a record. -/
inductive Value where
  | null
  | bool (b : Bool)
  | number (d : Decimal)
  | bigint (n : Int128)
  | string (s : String)
  | date (t : Instant)
  | binary (bytes : List UInt8)
  | set (members : List Value)
  | list (items : List Value)
  | map (fields : List (String × Value))

namespace Value

def kind : Value → ValueKind
  | .null => .null
  | .bool _ => .boolean
  | .number _ => .number
  | .bigint _ => .bigint
  | .string _ => .string
  | .date _ => .date
  | .binary _ => .binary
  | .set _ => .set
  | .list _ => .list
  | .map _ => .map

def isNull : Value → Bool
  | .null => true
  | _ => false

def string? : Value → Option String
  | .string s => some s
  | _ => none

def fields? : Value → Option (List (String × Value))
  | .map fields => some fields
  | _ => none

/-- A field of a map. -/
def get? (v : Value) (name : String) : Option Value :=
  v.fields?.bind (Record.find? name)

/-- A map with the given fields; of fields of one name the last one counts. -/
def ofFields (fields : List (String × Value)) : Value :=
  .map (Record.ofList fields)

/-- A date as far as the store keeps it. -/
def ofInstant (t : Instant) : Value :=
  .date t.truncateToMillis

end Value

end ItemSchema
