import ItemSchema.Record
import ItemSchema.Text.Quoted
import ItemSchema.Numeral.Digits

/-! Attribute values as the store exchanges them. Each has a tag; numbers are texts, so that none
loses a digit. -/
namespace ItemSchema

inductive WireTag where
  | s
  | n
  | b
  | bool
  | null
  | m
  | l
  | ss
  | ns
  | bs
  deriving DecidableEq

namespace WireTag

def all : List WireTag :=
  [.s, .n, .b, .bool, .null, .m, .l, .ss, .ns, .bs]

def name : WireTag → String
  | .s => "S"
  | .n => "N"
  | .b => "B"
  | .bool => "BOOL"
  | .null => "NULL"
  | .m => "M"
  | .l => "L"
  | .ss => "SS"
  | .ns => "NS"
  | .bs => "BS"

def names : List String :=
  all.map name

def ofName? (text : String) : Option WireTag :=
  all.find? fun tag => tag.name = text

end WireTag

inductive Wire where
  | s (text : String)
  | n (number : String)
  | b (bytes : List UInt8)
  | bool (b : Bool)
  | null
  | m (fields : List (String × Wire))
  | l (items : List Wire)
  | ss (texts : List String)
  | ns (numbers : List String)
  | bs (binaries : List (List UInt8))

/-- A stored item. -/
abbrev Item := Record Wire

namespace Wire

def tag : Wire → WireTag
  | .s _ => .s
  | .n _ => .n
  | .b _ => .b
  | .bool _ => .bool
  | .null => .null
  | .m _ => .m
  | .l _ => .l
  | .ss _ => .ss
  | .ns _ => .ns
  | .bs _ => .bs

def string? : Wire → Option String
  | .s text => some text
  | _ => none

def number? : Wire → Option String
  | .n number => some number
  | _ => none

def fields? : Wire → Option (List (String × Wire))
  | .m fields => some fields
  | _ => none

def items? : Wire → Option (List Wire)
  | .l items => some items
  | _ => none

/-- How many things a container holds. -/
def counted (n : Nat) (what : String) : String :=
  String.ofList (Numeral.digits n) ++ " " ++ what

/-- A short text for people; large contents are only counted. -/
def summary (w : Wire) : String :=
  let content := match w with
    | .s text => text
    | .n number => number
    | .b bytes => counted bytes.length "bytes"
    | .bool flag => if flag then "true" else "false"
    | .null => "true"
    | .m fields => counted fields.length "keys"
    | .l items => counted items.length "items"
    | .ss texts => Text.quotedList texts
    | .ns numbers => Text.quotedList numbers
    | .bs binaries => counted binaries.length "items"
  "\x7b" ++ w.tag.name ++ ": " ++ content ++ "\x7d"

end Wire

end ItemSchema
