import ItemSchema.Expression.Condition
import ItemSchema.Numeral.Digits

/-! Aliases: no name or value of an item stands in an expression itself. A name has one alias
however often it is used, a value has a new one each time, and aliases are counted from zero in the
order of their first use. -/
namespace ItemSchema

/-- The names and values that have aliases, each at the position that its alias counts. -/
structure Aliases where
  names : List String
  values : List Wire

/-- A path whose names are aliases. -/
abbrev AliasedPath := List (Segment Nat)

namespace Aliases

def empty : Aliases :=
  ⟨[], []⟩

def isEmpty (t : Aliases) : Bool :=
  t.names.isEmpty && t.values.isEmpty

def name (t : Aliases) (name : String) : Aliases × Nat :=
  match t.names.idxOf? name with
  | some i => (t, i)
  | none => ({ t with names := t.names ++ [name] }, t.names.length)

def value (t : Aliases) (w : Wire) : Aliases × Nat :=
  ({ t with values := t.values ++ [w] }, t.values.length)

def path (t : Aliases) : Path → Aliases × AliasedPath
  | [] => (t, [])
  | .field name :: rest =>
    let (t, i) := t.name name
    let (t, others) := t.path rest
    (t, .field i :: others)
  | .index n :: rest =>
    let (t, others) := t.path rest
    (t, .index n :: others)

def paths (t : Aliases) : List Path → Aliases × List AliasedPath
  | [] => (t, [])
  | p :: rest =>
    let (t, first) := t.path p
    let (t, others) := t.paths rest
    (t, first :: others)

def operands (t : Aliases) : List Wire → Aliases × List Nat
  | [] => (t, [])
  | w :: rest =>
    let (t, first) := t.value w
    let (t, others) := t.operands rest
    (t, first :: others)

end Aliases

/-- What aliases start with; a count follows. -/
structure AliasStems where
  name : String
  value : String
  deriving DecidableEq

namespace AliasStems

def standard : AliasStems :=
  ⟨"#f", ":v"⟩

def nameAlias (stems : AliasStems) (i : Nat) : String :=
  stems.name ++ String.ofList (Numeral.digits i)

def valueAlias (stems : AliasStems) (i : Nat) : String :=
  stems.value ++ String.ofList (Numeral.digits i)

end AliasStems

/-- What each alias stands for. -/
structure AliasTables where
  names : Record String
  values : Record Wire

def Aliases.tables (t : Aliases) (stems : AliasStems) : AliasTables where
  names := Record.ofList (t.names.mapIdx fun i name => (stems.nameAlias i, name))
  values := Record.ofList (t.values.mapIdx fun i w => (stems.valueAlias i, w))

end ItemSchema
