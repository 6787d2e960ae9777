import ItemSchema.Expression.Alias

/-! Actions of an update. -/
namespace ItemSchema

/-- Sets an attribute, removes it, or removes members from a set. -/
inductive UpdateAction (ν ω : Type) where
  | set (p : List (Segment ν)) (value : ω)
  | remove (p : List (Segment ν))
  | delete (p : List (Segment ν)) (value : ω)

/-- What the clauses of an update start with. -/
inductive UpdateKeyword where
  | set
  | remove
  | delete
  deriving DecidableEq

namespace UpdateKeyword

def text : UpdateKeyword → String
  | .set => "SET"
  | .remove => "REMOVE"
  | .delete => "DELETE"

/-- The order of the clauses. -/
def all : List UpdateKeyword :=
  [.set, .remove, .delete]

end UpdateKeyword

abbrev Action := UpdateAction String Wire

abbrev AliasedAction := UpdateAction Nat Nat

namespace Aliases

def action (t : Aliases) : Action → Aliases × AliasedAction
  | .set p w =>
    let (t, p) := t.path p
    let (t, i) := t.value w
    (t, .set p i)
  | .remove p =>
    let (t, p) := t.path p
    (t, .remove p)
  | .delete p w =>
    let (t, p) := t.path p
    let (t, i) := t.value w
    (t, .delete p i)

def actions (t : Aliases) : List Action → Aliases × List AliasedAction
  | [] => (t, [])
  | a :: rest =>
    let (t, first) := t.action a
    let (t, others) := t.actions rest
    (t, first :: others)

end Aliases

end ItemSchema
