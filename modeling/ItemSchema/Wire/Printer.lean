import ItemSchema.Json
import ItemSchema.Text.Base64
import ItemSchema.Wire

/-! Wire values as JSON: an object whose only key is the tag. Binaries are written in base 64. -/
namespace ItemSchema

def Wire.tagged (tag : WireTag) (content : Json) : Json :=
  .object [(tag.name, content)] none

mutual

def Wire.toJson : Wire → Json
  | .s text => tagged .s (.string text)
  | .n number => tagged .n (.string number)
  | .b bytes => tagged .b (.string (Text.Base64.encode bytes))
  | .bool flag => tagged .bool (.bool flag)
  | .null => tagged .null (.bool true)
  | .m fields => tagged .m (.object (Wire.fieldsToJson fields) none)
  | .l items => tagged .l (.array (Wire.itemsToJson items))
  | .ss texts => tagged .ss (.array (texts.map .string))
  | .ns numbers => tagged .ns (.array (numbers.map .string))
  | .bs binaries => tagged .bs (.array (binaries.map fun b => .string (Text.Base64.encode b)))

def Wire.itemsToJson : List Wire → List Json
  | [] => []
  | item :: rest => item.toJson :: Wire.itemsToJson rest

def Wire.fieldsToJson : List (String × Wire) → List (String × Json)
  | [] => []
  | (name, w) :: rest => (name, w.toJson) :: Wire.fieldsToJson rest

end

def Item.toJson (item : Item) : Json :=
  .object (Wire.fieldsToJson item) none

end ItemSchema
