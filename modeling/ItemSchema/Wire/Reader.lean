import ItemSchema.Error
import ItemSchema.Text.Base64
import ItemSchema.Wire

/-! Wire values from JSON. An object with exactly one key is a value, and the key is its tag; a null
may be written with either truth value. -/
namespace ItemSchema

def Wire.readBytes (j : Json) : Except ReadError (List UInt8) := do
  match Text.Base64.decode? (← Json.readString j) with
  | some bytes => return bytes
  | none => throw .base64

/-- All texts are read before the first of them is decoded. -/
def Wire.readBinaries (j : Json) : Except ReadError (List (List UInt8)) := do
  (← Json.readStrings j).mapM fun text =>
    match Text.Base64.decode? text with
    | some bytes => .ok bytes
    | none => .error .base64

mutual

def Wire.ofJson : Json → Except ReadError Wire
  | .object [] fault => do
    Json.noFault fault
    throw .notOneTag
  | .object ((key, content) :: rest) fault => do
    match WireTag.ofName? key with
    | none => throw (.unknownField key WireTag.names)
    | some tag =>
      let w ← Wire.ofContent tag content
      if !rest.isEmpty then throw .notOneTag
      Json.noFault fault
      return w
  | .broken _ => .error .malformed
  | _ => .error .wrongKind

/-- The value of a tag with a content. -/
def Wire.ofContent (tag : WireTag) (content : Json) : Except ReadError Wire :=
  match tag with
  | .s => .s <$> Json.readString content
  | .n => .n <$> Json.readString content
  | .b => .b <$> Wire.readBytes content
  | .bool => .bool <$> Json.readBool content
  | .null => (fun _ => .null) <$> Json.readBool content
  | .m => match content with
    | .object members fault => do
      let fields ← Wire.ofMembers members
      Json.noFault fault
      return .m (Record.ofList fields)
    | .broken _ => .error .malformed
    | _ => .error .wrongKind
  | .l => match content with
    | .array items => .l <$> Wire.ofItems items
    | .broken _ => .error .malformed
    | _ => .error .wrongKind
  | .ss => .ss <$> Json.readStrings content
  | .ns => .ns <$> Json.readStrings content
  | .bs => .bs <$> Wire.readBinaries content

def Wire.ofItems : List Json → Except ReadError (List Wire)
  | [] => .ok []
  | item :: rest => do
    let w ← Wire.ofJson item
    return w :: (← Wire.ofItems rest)

def Wire.ofMembers : List (String × Json) → Except ReadError (List (String × Wire))
  | [] => .ok []
  | (name, value) :: rest => do
    let w ← Wire.ofJson value
    return (name, w) :: (← Wire.ofMembers rest)

end

/-- Of members of one name the last one counts. -/
def Item.ofJson (j : Json) : Except ReadError Item := do
  let (members, fault) ← Json.readMembers j
  let fields ← Wire.ofMembers members
  Json.noFault fault
  return Record.ofList fields

def Wire.ofText (text : String) : Except Error Wire :=
  ((Json.parse text).read Wire.ofJson).mapError .json

end ItemSchema
