import ItemSchema.Error
import ItemSchema.Schema
import ItemSchema.Spelling

/-! The attribute that a path leads to. Any index of a list leads to the attribute of its items. -/
namespace ItemSchema

/-- The attribute one segment below another one. `whole` is the path that is being followed and
`done` what has been followed of it. -/
def Attribute.child (whole done : Path) : Attribute → Segment String → Except Error Attribute
  | .map fields, .field name =>
    match Schema.get? fields name with
    | some a => .ok a
    | none => .error (.pathNotFound whole)
  | .list (some item), .index _ => .ok item
  | .list none, .index _ => .error (.missingItemSchema done)
  | _, segment => .error (.invalidSegment whole segment)

def Attribute.follow (whole done : Path) (a : Attribute) : Path → Except Error Attribute
  | [] => .ok a
  | segment :: rest => do
    let next ← a.child whole done segment
    next.follow whole (done ++ [segment]) rest

/-- An item as a whole has no attribute. -/
def Schema.resolve (schema : Schema) (p : Path) : Except Error Attribute :=
  match p with
  | [] => .error (.pathNotFound [])
  | _ => (Attribute.map schema).follow p [] p

/-- Follows a path given as text. -/
def Schema.resolveText (schema : Schema) (text : String) : Except Error Attribute := do
  schema.resolve (← Path.parse text)

end ItemSchema
