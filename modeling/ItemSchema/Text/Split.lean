/-! Cutting a text at a separator and joining parts with one. -/
namespace ItemSchema.Text

/-- The pieces between the separators; a text without a separator is one piece, the empty text one
empty piece. -/
def splitOn (separator : Char) : List Char → List (List Char)
  | [] => [[]]
  | c :: rest =>
    if c = separator then [] :: splitOn separator rest
    else match splitOn separator rest with
      | [] => [[c]]
      | part :: parts => (c :: part) :: parts

/-- The text before the first character of a kind, and what follows that character. -/
def cutAt? (stop : Char → Bool) : List Char → Option (List Char × List Char)
  | [] => none
  | c :: rest =>
    if stop c then some ([], rest)
    else (cutAt? stop rest).map fun (before, after) => (c :: before, after)

/-- The parts in order with the separator between neighbours. -/
def join (separator : String) : List String → String
  | [] => ""
  | [part] => part
  | part :: parts => part ++ separator ++ join separator parts

end ItemSchema.Text
