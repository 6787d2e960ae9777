import ItemSchema.Path
import ItemSchema.Text.Blank
import ItemSchema.Text.DecimalDigit
import ItemSchema.Text.Split

/-! Paths from text: parts with dots between them, each a name with any number of bracketed indexes
or one bracketed index alone. -/
namespace ItemSchema.Path

/-- Why a text is no path. -/
inductive Fault where
  | blank
  | emptyPart (text : String)
  | notPart (part text : String)
  | indexTooLarge (text : String)
  | noLeadingField (text : String)
  deriving DecidableEq

def Fault.message : Fault → String
  | .blank => "path cannot be empty"
  | .emptyPart text => "empty segment in path '" ++ text ++ "'"
  | .notPart part text =>
    "segment '" ++ part ++ "' in path '" ++ text ++ "' is not a field name or list index"
  | .indexTooLarge text => "list index out of range in '" ++ text ++ "'"
  | .noLeadingField text => "path '" ++ text ++ "' must start with a field name"

def isNameChar (c : Char) : Bool :=
  c != '[' && c != ']' && c != '#' && c != ':'

/-- The contents of bracketed groups of digits that follow one another; `group` is the one that is
open. Digits of any script are let through here and sorted out as indexes. -/
def groups? : Option (List Char) → List Char → Option (List (List Char))
  | none, [] => some []
  | some _, [] => none
  | none, c :: rest => if c = '[' then groups? (some []) rest else none
  | some group, c :: rest =>
    if Text.isDecimalDigit c then groups? (some (group ++ [c])) rest
    else if c = ']' && !group.isEmpty then (groups? none rest).map (group :: ·)
    else none

def index (text : String) (group : List Char) : Except Fault (Segment String) :=
  match Numeral.index? group with
  | some n => .ok (.index n)
  | none => .error (.indexTooLarge text)

/-- The segments of one part of the text. -/
def part (text : String) (chars : List Char) : Except Fault Path :=
  if chars.isEmpty then .error (.emptyPart text)
  else
    let name := chars.takeWhile isNameChar
    match groups? none (chars.dropWhile isNameChar) with
    | none => .error (.notPart (String.ofList chars) text)
    | some groups =>
      if !name.isEmpty then do
        return .field (String.ofList name) :: (← groups.mapM (index text))
      else if groups.length = 1 then groups.mapM (index text)
      else .error (.notPart (String.ofList chars) text)

def ofText (text : String) : Except Fault Path := do
  if Text.isBlankText text then throw .blank
  let path := (← (Text.splitOn '.' text.toList).mapM (part text)).flatten
  if firstField? path |>.isNone then throw (.noLeadingField text)
  return path

end ItemSchema.Path
