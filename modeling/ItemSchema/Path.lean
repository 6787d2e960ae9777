import ItemSchema.Numeral.Digits

/-! Paths to attributes inside nested items: fields of maps and indexes of lists. -/
namespace ItemSchema

/-- One step of a path, with names of any kind: those of attributes or those that stand for them. -/
inductive Segment (ν : Type) where
  | field (name : ν)
  | index (n : Nat)
  deriving DecidableEq

/-- The empty path is the item itself. -/
abbrev Path := List (Segment String)

def indexText (n : Nat) : String :=
  "[" ++ String.ofList (Numeral.digits n) ++ "]"

namespace Segment

/-- The text of a segment whose name has a text. -/
def text (nameText : ν → String) : Segment ν → String
  | .field name => nameText name
  | .index n => indexText n

/-- The text of a segment behind another one. -/
def joinedText (nameText : ν → String) : Segment ν → String
  | .field name => "." ++ nameText name
  | .index n => indexText n

/-- Segments behind one another: a dot is in front of every name but the first segment. -/
def joinText (nameText : ν → String) : List (Segment ν) → String
  | [] => ""
  | first :: rest => first.text nameText ++ String.join (rest.map (joinedText nameText))

end Segment

def Path.toText (p : Path) : String :=
  if p.isEmpty then "<root>" else Segment.joinText id p

/-- The name of the attribute at the top level in which the path starts. -/
def Path.firstField? : Path → Option String
  | .field name :: _ => some name
  | _ => none

end ItemSchema
