import ItemSchema.Error

/-! Paths, operators and tags as callers give them, with the error for a text that spells none. -/
namespace ItemSchema

def Path.parse (text : String) : Except Error Path :=
  (Path.ofText text).mapError .invalidPath

/-- A path as callers give it: spelled by a text, or put together from segments. Only the latter can
have names that no text spells, such as one with a dot. -/
inductive PathRef where
  | text (spelling : String)
  | path (p : Path)

namespace PathRef

instance : Coe String PathRef := ⟨.text⟩

instance : Coe (List String) (List PathRef) := ⟨List.map .text⟩

def toPath : PathRef → Except Error Path
  | .text spelling => Path.parse spelling
  | .path p => .ok p

@[simp]
theorem toPath_text (spelling : String) : toPath spelling = Path.parse spelling :=
  rfl

end PathRef

def Operator.parse (text : String) : Except Error Operator :=
  match Operator.ofText? text with
  | some operator => .ok operator
  | none => .error (.unknownOperator text)

def WireTag.parse (text : String) : Except Error WireTag :=
  match WireTag.ofName? text with
  | some tag => .ok tag
  | none => .error (.typeMismatch .attributeType .tagName (.text text))

end ItemSchema
