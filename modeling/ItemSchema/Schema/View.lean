import ItemSchema.Schema.Resolution

/-! Views of a schema that show only some of the attributes at its top level. -/
namespace ItemSchema

inductive ViewScope where
  | full
  | keysOnly
  | nonKeys
  deriving DecidableEq

structure SchemaView where
  schema : Schema
  scope : ViewScope

namespace SchemaView

def contains (view : SchemaView) (name : String) : Bool :=
  match view.scope with
  | .full => (view.schema.get? name).isSome
  | .keysOnly => view.schema.isPrimaryKey name
  | .nonKeys => (view.schema.get? name).any fun a => !a.isKey

/-- A path that starts outside the view leads nowhere. -/
def resolve (view : SchemaView) (p : Path) : Except Error Attribute :=
  match p.firstField? with
  | some name => if view.contains name then view.schema.resolve p else .error (.pathNotFound p)
  | none => .error (.pathNotFound p)

end SchemaView

end ItemSchema
