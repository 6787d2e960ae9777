import ItemSchema.Error
import ItemSchema.Instant.Printer
import ItemSchema.Instant.Reader
import ItemSchema.Schema

/-! Plain values as wire values, guided by the attribute that they belong to. The first value that
does not fit ends the encoding and is reported with its path. -/
namespace ItemSchema

def mismatch (p : Path) (expected : Expectation) (v : Value) : Except Error α :=
  .error (.typeMismatch (.path p) expected (.kind v.kind))

/-- Dates are stored to the millisecond; a finer one could not be read back. -/
def encodeDate (p : Path) (t : Instant) : Except Error Wire :=
  if t.isWholeMillis then .ok (.s t.toText)
  else .error (.typeMismatch (.path p) .wholeMillis (.text t.toExactText))

/-- A date may be given as a timestamp. -/
def encodeScalar (p : Path) (of : ScalarType) (v : Value) : Except Error Wire :=
  match of, v with
  | .string, .string s => .ok (.s s)
  | .number, .number d => .ok (.n d.toText)
  | .bigint, .bigint n => .ok (.n n.toText)
  | .boolean, .bool b => .ok (.bool b)
  | .date, .date t => encodeDate p t
  | .date, .string s =>
    match Instant.ofText? s with
    | some t => encodeDate p t
    | none => .error (.typeMismatch (.path p) .timestamp (.text s))
  | _, _ => mismatch p (.scalar of) v

def stringMember (p : Path) : Value → Except Error String
  | .string s => .ok s
  | v => mismatch p (.setElement .string) v

def numberMember (p : Path) : Value → Except Error Decimal
  | .number d => .ok d
  | v => mismatch p (.setElement .number) v

def binaryMember (p : Path) : Value → Except Error (List UInt8)
  | .binary bytes => .ok bytes
  | v => mismatch p (.setElement .binary) v

/-- A member of a set as a value of its own. -/
def encodeMember (p : Path) (of : SetType) (v : Value) : Except Error Wire :=
  match of with
  | .string => .s <$> stringMember p v
  | .number => (fun d => .n d.toText) <$> numberMember p v
  | .binary => .b <$> binaryMember p v

/-- Keeps the first element of each key. -/
def distinctBy [DecidableEq κ] (key : α → κ) (seen : List κ) : List α → List α
  | [] => []
  | x :: rest =>
    if key x ∈ seen then distinctBy key seen rest
    else x :: distinctBy key (key x :: seen) rest

/-- Numbers of one value are one member, whatever their scales. -/
def encodeMembers (p : Path) (of : SetType) (members : List Value) : Except Error Wire :=
  match of with
  | .string => do
    return .ss (distinctBy id [] (← members.mapM (stringMember p)))
  | .number => do
    return .ns ((distinctBy Decimal.normalize [] (← members.mapM (numberMember p))).map
      Decimal.toText)
  | .binary => do
    return .bs (distinctBy id [] (← members.mapM (binaryMember p)))

/-- A set may be given as a list. The store has no empty sets. -/
def encodeSet (p : Path) (of : SetType) (v : Value) : Except Error Wire :=
  match v with
  | .set members | .list members =>
    if members.isEmpty then .error (.invalidOperand (.path p) .emptySet)
    else encodeMembers p of members
  | _ => mismatch p (.set of) v

/-- Encodes what is neither null nor a list or map where its attribute wants one. -/
def encodeFlat (p : Path) (a : Attribute) (v : Value) : Except Error Wire :=
  match a with
  | .partitionKey of | .sortKey of => encodeScalar p of.scalarType v
  | .scalar of => encodeScalar p of v
  | .set of => encodeSet p of v
  | .list none => .error (.missingItemSchema p)
  | .list (some _) => mismatch p .list v
  | .map _ => mismatch p .map v

mutual

/-- Encodes the value that stands at a path. Every attribute but a key admits null. -/
def encodeAt (p : Path) (a : Attribute) (v : Value) : Except Error Wire :=
  match v, a with
  | .null, .partitionKey of | .null, .sortKey of => mismatch p (.scalar of.scalarType) .null
  | .null, _ => .ok .null
  | .list items, .list (some item) => .l <$> encodeItems p item 0 items
  | .map fields, .map schema => .m <$> encodeFields p schema fields
  | v, a => encodeFlat p a v

/-- Encodes the items of a list from an index on. -/
def encodeItems (p : Path) (item : Attribute) (index : Nat) :
    List Value → Except Error (List Wire)
  | [] => .ok []
  | v :: rest => do
    let w ← encodeAt (p ++ [.index index]) item v
    return w :: (← encodeItems p item (index + 1) rest)

/-- Encodes fields in the order of their names; each must be known to the schema. -/
def encodeFields (p : Path) (schema : Schema) :
    List (String × Value) → Except Error (List (String × Wire))
  | [] => .ok []
  | (name, v) :: rest => do
    match schema.get? name with
    | none => throw (.unknownField (.path p) name)
    | some a =>
      let w ← encodeAt (p ++ [.field name]) a v
      return (name, w) :: (← encodeFields p schema rest)

end

def Attribute.encode (a : Attribute) (v : Value) : Except Error Wire :=
  encodeAt [] a v

/-- An item is a map. Fields of the schema that it lacks are left out. -/
def Schema.encodeItem (schema : Schema) (v : Value) : Except Error Item :=
  match v with
  | .map fields => encodeFields [] schema fields
  | _ => mismatch [] .map v

end ItemSchema
