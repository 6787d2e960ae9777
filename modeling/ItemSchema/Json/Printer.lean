import ItemSchema.Json
import ItemSchema.Text.Split

/-! Compact JSON text of a tree. In strings only the quotation mark, the backslash and control
characters are escaped; a fault is written as null. -/
namespace ItemSchema.Json

def hexDigit (n : Nat) : Char :=
  if n < 10 then Char.ofNat (48 + n) else Char.ofNat (87 + n)

def escapeChar (c : Char) : List Char :=
  match c with
  | '"' => ['\\', '"']
  | '\\' => ['\\', '\\']
  | '\x08' => ['\\', 'b']
  | '\x0c' => ['\\', 'f']
  | '\n' => ['\\', 'n']
  | '\r' => ['\\', 'r']
  | '\t' => ['\\', 't']
  | _ =>
    if c.toNat < 0x20 then ['\\', 'u', '0', '0', hexDigit (c.toNat / 16), hexDigit (c.toNat % 16)]
    else [c]

def printString (s : String) : String :=
  "\"" ++ String.ofList (s.toList.flatMap escapeChar) ++ "\""

def Number.toText : Number → String
  | .integer n => (if n < 0 then "-" else "") ++ String.ofList (Numeral.digits n.natAbs)
  | .float x => x.toText

mutual

def print : Json → String
  | .null => "null"
  | .bool true => "true"
  | .bool false => "false"
  | .number n => n.toText
  | .string s => printString s
  | .array items => "[" ++ Text.join "," (printItems items) ++ "]"
  | .object members _ => "\x7b" ++ Text.join "," (printMembers members) ++ "\x7d"
  | .broken _ => "null"

def printItems : List Json → List String
  | [] => []
  | item :: rest => item.print :: printItems rest

def printMembers : List (String × Json) → List String
  | [] => []
  | (key, value) :: rest => (printString key ++ ":" ++ value.print) :: printMembers rest

end

end ItemSchema.Json
