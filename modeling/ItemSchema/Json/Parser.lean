import ItemSchema.Json.Token

/-! From tokens to trees. The parser keeps the containers that are open on a stack and looks at each
token once. -/
namespace ItemSchema.Json

/-- A container that is still open, its parts last first. The value that an object reads next
belongs to `key`; once a key has no value, `void` is set and later members are passed over. -/
inductive Frame where
  | array (items : List Json)
  | object (members : List (String × Json)) (key : String) (void : Bool)

/-- What may come next. An array that has just been opened may end, and so may an object. -/
inductive Place where
  | value
  | firstItem
  | firstKey
  | key
  | colon
  | separator

def addMember (members : List (String × Json)) (key : String) (void : Bool) (value : Json) :
    List (String × Json) :=
  if void then members else (key, value) :: members

/-- The tree when reading stops inside open containers and `inner` is all there is of the value that
the innermost of them was reading. -/
def enclose (inner : Json) : List Frame → Json
  | [] => inner
  | .array items :: outer => enclose (.array (inner :: items).reverse) outer
  | .object members key void :: outer =>
    enclose (.object (addMember members key void inner).reverse (some .cut)) outer

/-- The tree when reading stops at a place. An object that waits for a value has a damaged member,
one that waits for a key or a separator has none. -/
def stopAt (place : Place) (stack : List Frame) : Json :=
  match place, stack with
  | .value, _ | .colon, _ => enclose (.broken .cut) stack
  | _, .object members _ _ :: outer => enclose (.object members.reverse (some .cut)) outer
  | _, _ => enclose (.broken .cut) stack

/-- After one token the parser goes on or has a tree. -/
inductive Step where
  | more (stack : List Frame) (place : Place)
  | done (tree : Json)

/-- A finished value goes into the innermost open container. -/
def settle (value : Json) : List Frame → Step
  | [] => .done value
  | .array items :: outer => .more (.array (value :: items) :: outer) .separator
  | .object members key void :: outer =>
    .more (.object (addMember members key void value) key void :: outer) .separator

def beginValue? (stack : List Frame) : Token → Option Step
  | .openArray => some (.more (.array [] :: stack) .firstItem)
  | .openObject => some (.more (.object [] "" false :: stack) .firstKey)
  | .null => some (settle .null stack)
  | .bool b => some (settle (.bool b) stack)
  | .number n => some (settle (.number n) stack)
  | .string s => some (settle (.string s) stack)
  | .hugeNumber | .halfPair => some (settle (.broken .void) stack)
  | _ => none

def endContainer? : List Frame → Token → Option Step
  | .array items :: outer, .closeArray => some (settle (.array items.reverse) outer)
  | .object members _ void :: outer, .closeObject =>
    some (settle (.object members.reverse (if void then some .void else none)) outer)
  | _, _ => none

def beginMember? : List Frame → Token → Option Step
  | .object members _ void :: outer, .string key =>
    some (.more (.object members key void :: outer) .colon)
  | .object members _ _ :: outer, .halfPair =>
    some (.more (.object members "" true :: outer) .colon)
  | _, _ => none

def separate? : List Frame → Token → Option Step
  | .array items :: outer, .comma => some (.more (.array items :: outer) .value)
  | .object members key void :: outer, .comma =>
    some (.more (.object members key void :: outer) .key)
  | _, _ => none

def next (stack : List Frame) (place : Place) (token : Token) : Step :=
  let taken :=
    match place with
    | .value => beginValue? stack token
    | .firstItem => endContainer? stack token <|> beginValue? stack token
    | .firstKey => endContainer? stack token <|> beginMember? stack token
    | .key => beginMember? stack token
    | .colon => match token with
      | .colon => some (.more stack .value)
      | _ => none
    | .separator => endContainer? stack token <|> separate? stack token
  taken.getD (.done (stopAt place stack))

/-- The tree that the tokens spell, and the tokens behind it. -/
def build (stack : List Frame) (place : Place) : List Token → Json × List Token
  | [] => (stopAt place stack, [])
  | token :: rest =>
    match next stack place token with
    | .more stack place => build stack place rest
    | .done tree => (tree, rest)

/-- As many arrays and objects may stand in one another. -/
def maxDepth : Nat := 127

/-- A text read as one tree; `trailing` tells that more than blanks stands behind it. -/
structure Document where
  root : Json
  trailing : Bool

def parse (text : String) : Document :=
  let (root, rest) := build [] .value (Token.ofText text)
  ⟨root.limit maxDepth, !rest.isEmpty⟩

end ItemSchema.Json
