import ItemSchema.Request.Write

/-! Updates of one item. Its keys stay as they are. -/
namespace ItemSchema

inductive UpdateCall where
  | key (v : Value)
  | set (path : PathRef) (v : Value)
  | remove (path : PathRef)
  | delete (path : PathRef) (members : Value)
  | write (call : WriteCall)

structure Update where
  key : Option Item
  actions : List Action
  write : Write

namespace Update

def empty (table : Table) : Update :=
  ⟨none, [], .empty table⟩

/-- The attribute that an action at a path is about. -/
def target (table : Table) (p : Path) : Except Error Attribute :=
  if p.firstField?.any table.schema.isPrimaryKey then invalidOperand p .keyAttributeUpdate
  else (table.view .full).resolve p

def setAction (table : Table) (p : Path) (v : Value) : Except Error Action := do
  let a ← target table p
  return .set p (← encodeAt p a v)

def removeAction (table : Table) (p : Path) : Except Error Action := do
  let _ ← target table p
  return .remove p

/-- Only sets have members to remove. -/
def deleteAction (table : Table) (p : Path) (members : Value) : Except Error Action := do
  let a ← target table p
  match a with
  | .set _ => return .delete p (← encodeAt p a members)
  | _ => invalidOperand p (.deleteFrom a.kind)

def addAction (update : Update) (action : Action) : Update :=
  { update with actions := update.actions ++ [action] }

def add (table : Table) (update : Update) : UpdateCall → Except Error Update
  | .key v => do return { update with key := some (← table.encodeKey v) }
  | .set path v => do return update.addAction (← setAction table (← path.toPath) v)
  | .remove path => do return update.addAction (← removeAction table (← path.toPath))
  | .delete path members => do
    return update.addAction (← deleteAction table (← path.toPath) members)
  | .write call => do return { update with write := ← update.write.add table .update call }

def request (table : Table) (update : Update) : Except Error UpdateRequest := do
  let some key := update.key | throw (.invalidOperand .request (.missingPart .update .key))
  if update.actions.isEmpty then
    throw (.invalidOperand .request (.missingPart .update .action))
  let (t, text) := Aliases.empty.compileUpdate table.config.stems update.actions
  return { ← update.write.request table t with key := key, update := text }

end Update

def Table.update (table : Table) (calls : List UpdateCall) : Except Error UpdateRequest := do
  let update ← calls.foldlM (Update.add table) (.empty table)
  update.request table

end ItemSchema
