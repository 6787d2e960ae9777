import ItemSchema.Error
import ItemSchema.Instant.Reader
import ItemSchema.Numeral.Decimal.Reader
import ItemSchema.Numeral.StoreNumber
import ItemSchema.Schema

/-! Wire values as plain values, guided by the attribute that they belong to. -/
namespace ItemSchema

/-- What becomes of a wire value with a tag or a number that its attribute does not admit: strictly
it is an error, leniently it is taken as it is. -/
inductive DecodeMode where
  | strict
  | lenient
  deriving DecidableEq

/-- A number that no decimal holds is taken as its text. -/
def Value.ofNumberText (number : String) : Value :=
  match Decimal.ofText? number with
  | some d => .number d
  | none => .string number

mutual

/-- Decodes without an attribute. -/
def Wire.untyped : Wire → Value
  | .s text => .string text
  | .n number => .ofNumberText number
  | .b bytes => .binary bytes
  | .bool flag => .bool flag
  | .null => .null
  | .m fields => .map (Wire.untypedFields fields)
  | .l items => .list (Wire.untypedItems items)
  | .ss texts => .set (texts.map .string)
  | .ns numbers => .set (numbers.map .ofNumberText)
  | .bs binaries => .set (binaries.map .binary)

def Wire.untypedItems : List Wire → List Value
  | [] => []
  | item :: rest => item.untyped :: Wire.untypedItems rest

def Wire.untypedFields : List (String × Wire) → List (String × Value)
  | [] => []
  | (name, w) :: rest => (name, w.untyped) :: Wire.untypedFields rest

end

/-- A wire value with another tag than its attribute has. -/
def decodeMismatch (mode : DecodeMode) (p : Path) (expected : WireTag) (w : Wire) :
    Except Error Value :=
  match mode with
  | .strict => .error (.tagMismatch p expected w.tag)
  | .lenient => .ok w.untyped

/-- A number that its type cannot hold. The store may have it nonetheless; what is no number at all
is an error in either mode. -/
def decodeUnfit (mode : DecodeMode) (p : Path) (of : ScalarType) (number : String) :
    Except Error Value :=
  if Numeral.isStoreNumber number then
    match mode with
    | .strict => .error (.numberOutOfRange p number)
    | .lenient => .ok (.string number)
  else .error (.typeMismatch (.path p) (.scalar of) (.text number))

def decodeNumber (mode : DecodeMode) (p : Path) (number : String) : Except Error Value :=
  match Decimal.ofText? number with
  | some d => .ok (.number d)
  | none => decodeUnfit mode p .number number

def decodeScalar (mode : DecodeMode) (p : Path) (of : ScalarType) (w : Wire) :
    Except Error Value :=
  match of, w with
  | .string, .s text => .ok (.string text)
  | .number, .n number => decodeNumber mode p number
  | .bigint, .n number =>
    match Int128.ofText? number with
    | some n => .ok (.bigint n)
    | none => decodeUnfit mode p .bigint number
  | .boolean, .bool flag => .ok (.bool flag)
  | .date, .s text =>
    match Instant.ofText? text with
    | some t => .ok (.date t)
    | none => .error (.typeMismatch (.path p) .timestamp (.text text))
  | .string, _ | .date, _ => decodeMismatch mode p .s w
  | .number, _ | .bigint, _ => decodeMismatch mode p .n w
  | .boolean, _ => decodeMismatch mode p .bool w

def decodeSet (mode : DecodeMode) (p : Path) (of : SetType) (w : Wire) : Except Error Value :=
  match of, w with
  | .string, .ss texts => .ok (.set (texts.map .string))
  | .number, .ns numbers => .set <$> numbers.mapM (decodeNumber mode p)
  | .binary, .bs binaries => .ok (.set (binaries.map .binary))
  | .string, _ => decodeMismatch mode p .ss w
  | .number, _ => decodeMismatch mode p .ns w
  | .binary, _ => decodeMismatch mode p .bs w

/-- How items are decoded. A whole item has empty lists and maps where the store has none; a part of
an item has only what the store gave. -/
structure Decoding where
  mode : DecodeMode
  fillAbsent : Bool

/-- The value of an absent attribute. -/
def Decoding.absent (d : Decoding) (a : Attribute) : Option Value :=
  match a with
  | .list _ => if d.fillAbsent then some (.list []) else none
  | .map _ => if d.fillAbsent then some (.map []) else none
  | _ => none

/-- Decodes the items of a list from an index on. -/
def decodeItems (decode : Nat → Wire → Except Error (Option Value)) (index : Nat) :
    List Wire → Except Error (List Value)
  | [] => .ok []
  | w :: rest => do
    let v ← decode index w
    return v.getD .null :: (← decodeItems decode (index + 1) rest)

mutual

/-- Decodes what stands at a path, or what is absent there. -/
def decodeAt (d : Decoding) (p : Path) (a : Attribute) (w : Option Wire) :
    Except Error (Option Value) :=
  match a, w with
  | a, none => .ok (d.absent a)
  | _, some .null => .ok (some .null)
  | .partitionKey of, some w | .sortKey of, some w =>
    some <$> decodeScalar d.mode p of.scalarType w
  | .scalar of, some w => some <$> decodeScalar d.mode p of w
  | .set of, some w => some <$> decodeSet d.mode p of w
  | .list (some item), some (.l items) =>
    (fun values => some (.list values)) <$>
      decodeItems (fun i w => decodeAt d (p ++ [.index i]) item (some w)) 0 items
  | .list none, some (.l _) => .error (.missingItemSchema p)
  | .map schema, some (.m entries) => do
    return some (.map (Record.ofList (← decodeFields d p entries schema)))
  | .list _, some w => some <$> decodeMismatch d.mode p .l w
  | .map _, some w => some <$> decodeMismatch d.mode p .m w

/-- Decodes the entries that the schema names, in the order of the schema. -/
def decodeFields (d : Decoding) (p : Path) (entries : List (String × Wire)) :
    List (String × Attribute) → Except Error (List (String × Value))
  | [] => .ok []
  | (name, a) :: rest => do
    let v ← decodeAt d (p ++ [.field name]) a (Record.find? name entries)
    let fields ← decodeFields d p entries rest
    return match v with
      | some v => (name, v) :: fields
      | none => fields

end

def Attribute.decode (a : Attribute) (w : Option Wire) (mode : DecodeMode) :
    Except Error (Option Value) :=
  decodeAt ⟨mode, true⟩ [] a w

/-- Entries that the schema does not name are passed over. -/
def Schema.decodeWith (schema : Schema) (d : Decoding) (item : Item) : Except Error Value := do
  return .map (Record.ofList (← decodeFields d [] item schema))

def Schema.decodeItem (schema : Schema) (item : Item) (mode : DecodeMode) : Except Error Value :=
  schema.decodeWith ⟨mode, true⟩ item

/-- Decodes a part of an item, such as what an update has touched. -/
def Schema.decodePartialItem (schema : Schema) (item : Item) (mode : DecodeMode) :
    Except Error Value :=
  schema.decodeWith ⟨mode, false⟩ item

end ItemSchema
