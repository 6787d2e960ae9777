/-! Records: named entries in ascending order of their names, each name once. The order is that of
code points. -/
namespace ItemSchema

abbrev Record (α : Type) := List (String × α)

namespace Record

def find? (name : String) : List (String × α) → Option α
  | [] => none
  | (key, value) :: rest => if name = key then some value else find? name rest

/-- Puts an entry in its place; an entry of the same name is replaced. -/
def insert (name : String) (value : α) : List (String × α) → List (String × α)
  | [] => [(name, value)]
  | (key, old) :: rest =>
    if name = key then (name, value) :: rest
    else if name < key then (name, value) :: (key, old) :: rest
    else (key, old) :: insert name value rest

/-- Of entries of one name the last one counts. -/
def ofList (entries : List (String × α)) : Record α :=
  entries.foldl (fun record (name, value) => insert name value record) []

/-- The values of all entries, or the first failure in their order. -/
def collect : List (String × Except ε α) → Except ε (List (String × α))
  | [] => .ok []
  | (name, result) :: rest => do
    let value ← result
    return (name, value) :: (← collect rest)

end Record

end ItemSchema
