import ItemSchema.Numeral.Binary64

/-! Documents in JSON notation as trees. A tree keeps what could be read of a damaged text: a fault
stands where reading stops, so that whoever reads the tree meets the first problem in the order of
the text, be it a fault or a value that is out of place. -/
namespace ItemSchema

/-- `cut`: the text breaks off or goes wrong here. `void`: the text is sound but has no value, as a
number beyond binary64, half of a surrogate pair, or nesting beyond the limit. -/
inductive Json.Fault where
  | cut
  | void
  deriving DecidableEq

/-- Integers of 64 bits, with or without a sign, are kept exactly; all others are rounded. -/
inductive Json.Number where
  | integer (n : Int)
  | float (x : Binary64)
  deriving DecidableEq

/-- Members keep their order and their repetitions. The fault of an object stands behind its last
member. -/
inductive Json where
  | null
  | bool (b : Bool)
  | number (n : Json.Number)
  | string (s : String)
  | array (items : List Json)
  | object (members : List (String × Json)) (fault : Option Json.Fault)
  | broken (f : Json.Fault)
  deriving Inhabited

namespace Json

mutual

/-- Whether every fault in the tree is one of the given kinds. -/
def faultsIn (allowed : Fault → Bool) : Json → Bool
  | .array items => itemsFaultsIn allowed items
  | .object members fault => membersFaultsIn allowed members && fault.all allowed
  | .broken f => allowed f
  | _ => true

def itemsFaultsIn (allowed : Fault → Bool) : List Json → Bool
  | [] => true
  | item :: rest => item.faultsIn allowed && itemsFaultsIn allowed rest

def membersFaultsIn (allowed : Fault → Bool) : List (String × Json) → Bool
  | [] => true
  | (_, value) :: rest => value.faultsIn allowed && membersFaultsIn allowed rest

end

/-- A tree without faults. -/
def intact (j : Json) : Bool :=
  j.faultsIn fun _ => false

/-- A tree that can be passed over: its text is sound even where it has no value. -/
def passable (j : Json) : Bool :=
  j.faultsIn (· == .void)

/-- What is left of a container that is nested too deeply. -/
def tooDeep (j : Json) : Json :=
  let fault : Fault := if j.passable then .void else .cut
  match j with
  | .array _ => .array [.broken fault]
  | .object .. => .object [] (some fault)
  | other => other

mutual

/-- Cuts containers that are nested in as many others as the limit says. -/
def limit : Nat → Json → Json
  | 0, j => j.tooDeep
  | depth + 1, .array items => .array (limitItems depth items)
  | depth + 1, .object members fault => .object (limitMembers depth members) fault
  | _ + 1, other => other

def limitItems (depth : Nat) : List Json → List Json
  | [] => []
  | item :: rest => item.limit depth :: limitItems depth rest

def limitMembers (depth : Nat) : List (String × Json) → List (String × Json)
  | [] => []
  | (key, value) :: rest => (key, value.limit depth) :: limitMembers depth rest

end

end Json

end ItemSchema
