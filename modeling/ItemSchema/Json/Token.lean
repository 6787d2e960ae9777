import ItemSchema.Json

/-! Tokens of JSON text and the scanner that finds them. The scanner takes one character at a time;
at the first character that no token can take it gives up, and whatever follows is not looked at. -/
namespace ItemSchema.Json

/-- `hugeNumber` is a number beyond binary64 and `halfPair` a string with half of a surrogate pair:
both are sound and have no value. `junk` is the place where scanning stops. -/
inductive Token where
  | openArray
  | closeArray
  | openObject
  | closeObject
  | comma
  | colon
  | null
  | bool (b : Bool)
  | number (n : Number)
  | string (s : String)
  | hugeNumber
  | halfPair
  | junk

namespace Token

/-- How far the text of a number has come. -/
inductive NumberPart where
  | sign
  | leadingZero
  | whole
  | point
  | fraction
  | mark
  | markSign
  | exponent
  deriving DecidableEq

/-- A number of which `mantissa` holds the digits so far, `places` of them behind the point. -/
structure NumberScan where
  part : NumberPart
  negative : Bool
  mantissa : Nat
  places : Nat
  exponentNegative : Bool
  exponent : Nat

/-- The number with the next character, `none` if that is no part of it. -/
def NumberScan.next? (s : NumberScan) (c : Char) : Option NumberScan :=
  let grown := s.mantissa * 10 + Numeral.digitValue c
  match s.part with
  | .sign =>
    if c = '0' then some { s with part := .leadingZero }
    else if c.isDigit then some { s with part := .whole, mantissa := grown }
    else none
  | .leadingZero =>
    if c = '.' then some { s with part := .point }
    else if c = 'e' || c = 'E' then some { s with part := .mark }
    else none
  | .whole =>
    if c.isDigit then some { s with mantissa := grown }
    else if c = '.' then some { s with part := .point }
    else if c = 'e' || c = 'E' then some { s with part := .mark }
    else none
  | .point | .fraction =>
    if c.isDigit then some { s with part := .fraction, mantissa := grown, places := s.places + 1 }
    else if s.part = .fraction && (c = 'e' || c = 'E') then some { s with part := .mark }
    else none
  | .mark =>
    if c = '+' then some { s with part := .markSign }
    else if c = '-' then some { s with part := .markSign, exponentNegative := true }
    else if c.isDigit then some { s with part := .exponent, exponent := Numeral.digitValue c }
    else none
  | .markSign | .exponent =>
    if c.isDigit then
      some { s with part := .exponent, exponent := s.exponent * 10 + Numeral.digitValue c }
    else none

/-- Whether the number may end before a character. A zero in front of digits may not. -/
def NumberScan.endsBefore (s : NumberScan) (c : Char) : Bool :=
  match s.part with
  | .leadingZero => !c.isDigit
  | .whole | .fraction | .exponent => true
  | .sign | .point | .mark | .markSign => false

/-- A number without point and exponent is an integer if 64 bits hold it; the negative zero is not
one. -/
def NumberScan.token (s : NumberScan) : Token :=
  let plain := s.part = .leadingZero || s.part = .whole
  let signed : Int := if s.negative then -s.mantissa else s.mantissa
  if plain && -Int.pow 2 63 ≤ signed && signed < Int.pow 2 64 && !(s.negative && s.mantissa = 0) then
    .number (.integer signed)
  else
    let exponent : Int := if s.exponentNegative then -s.exponent else s.exponent
    match Binary64.ofScaled? s.negative s.mantissa (exponent - s.places) with
    | some x => .number (.float x)
    | none => .hugeNumber

/-- Where in a string the scanner stands: among characters, behind a backslash, or behind that many
of the four digits of a code unit. -/
inductive StringPart where
  | plain
  | escape
  | unit (count value : Nat)

/-- A string with its characters so far, last first. `high` is the first half of a surrogate pair
that waits for the second; a half alone makes the string unsound. -/
structure StringScan where
  part : StringPart
  chars : List Char
  high : Option Nat
  sound : Bool

def hexValue? (c : Char) : Option Nat :=
  let n := c.toNat
  if 48 ≤ n && n ≤ 57 then some (n - 48)
  else if 97 ≤ n && n ≤ 102 then some (n - 87)
  else if 65 ≤ n && n ≤ 70 then some (n - 55)
  else none

/-- The character behind a backslash that stands for one other character. -/
def escaped? : Char → Option Char
  | '"' => some '"'
  | '\\' => some '\\'
  | '/' => some '/'
  | 'b' => some '\x08'
  | 'f' => some '\x0c'
  | 'n' => some '\n'
  | 'r' => some '\r'
  | 't' => some '\t'
  | _ => none

/-- Takes one more character; a first half that was waiting stays alone. -/
def StringScan.push (s : StringScan) (c : Char) : StringScan :=
  { s with part := .plain, chars := c :: s.chars, high := none, sound := s.sound && s.high.isNone }

/-- Takes a code unit written with digits. -/
def StringScan.pushUnit (s : StringScan) (unit : Nat) : StringScan :=
  if 0xDC00 ≤ unit && unit ≤ 0xDFFF then
    match s.high with
    | some high =>
      let c := Char.ofNat (0x10000 + (high - 0xD800) * 0x400 + (unit - 0xDC00))
      { s with part := .plain, chars := c :: s.chars, high := none }
    | none => { s with part := .plain, sound := false }
  else if 0xD800 ≤ unit && unit ≤ 0xDBFF then
    { s with part := .plain, high := some unit, sound := s.sound && s.high.isNone }
  else s.push (Char.ofNat unit)

def StringScan.token (s : StringScan) : Token :=
  if s.sound && s.high.isNone then .string (String.ofList s.chars.reverse) else .halfPair

/-- What the scanner is in the middle of. A word is known by its first letter; `rest` is what is
still to come of it. -/
inductive Scan where
  | between
  | word (rest : List Char) (token : Token)
  | number (s : NumberScan)
  | string (s : StringScan)
  | stopped

def numberStart (part : NumberPart) (negative : Bool) (mantissa : Nat) : Scan :=
  .number ⟨part, negative, mantissa, 0, false, 0⟩

/-- The first character of a token, or a blank between tokens. -/
def first (c : Char) : List Token × Scan :=
  match c with
  | ' ' | '\t' | '\n' | '\r' => ([], .between)
  | '[' => ([.openArray], .between)
  | ']' => ([.closeArray], .between)
  | '{' => ([.openObject], .between)
  | '}' => ([.closeObject], .between)
  | ',' => ([.comma], .between)
  | ':' => ([.colon], .between)
  | '"' => ([], .string ⟨.plain, [], none, true⟩)
  | 'n' => ([], .word ['u', 'l', 'l'] .null)
  | 't' => ([], .word ['r', 'u', 'e'] (.bool true))
  | 'f' => ([], .word ['a', 'l', 's', 'e'] (.bool false))
  | '-' => ([], numberStart .sign true 0)
  | '0' => ([], numberStart .leadingZero false 0)
  | _ =>
    if c.isDigit then ([], numberStart .whole false (Numeral.digitValue c)) else ([.junk], .stopped)

/-- A control character may not stand in a string. -/
def inString (s : StringScan) (c : Char) : List Token × Scan :=
  match s.part with
  | .plain =>
    if c = '"' then ([s.token], .between)
    else if c = '\\' then ([], .string { s with part := .escape })
    else if c.toNat < 0x20 then ([.junk], .stopped)
    else ([], .string (s.push c))
  | .escape =>
    if c = 'u' then ([], .string { s with part := .unit 0 0 })
    else match escaped? c with
      | some c => ([], .string (s.push c))
      | none => ([.junk], .stopped)
  | .unit count value =>
    match hexValue? c with
    | some digit =>
      let value := value * 16 + digit
      if count = 3 then ([], .string (s.pushUnit value))
      else ([], .string { s with part := .unit (count + 1) value })
    | none => ([.junk], .stopped)

def step : Scan → Char → List Token × Scan
  | .between, c => first c
  | .word [] token, c => let (tokens, scan) := first c; (token :: tokens, scan)
  | .word (d :: rest) token, c =>
    if c = d then
      match rest with
      | [] => ([token], .between)
      | _ => ([], .word rest token)
    else ([.junk], .stopped)
  | .number s, c =>
    match s.next? c with
    | some s => ([], .number s)
    | none =>
      if s.endsBefore c then let (tokens, scan) := first c; (s.token :: tokens, scan)
      else ([.junk], .stopped)
  | .string s, c => inString s c
  | .stopped, _ => ([], .stopped)

/-- What stands for an unfinished token at the end of the text. -/
def finish : Scan → List Token
  | .between => []
  | .number s => if s.endsBefore ' ' then [s.token] else [.junk]
  | .word .. => [.junk]
  | .string _ => [.junk]
  | .stopped => []

def scan (state : Scan) : List Char → List Token
  | [] => finish state
  | c :: rest =>
    let (tokens, next) := step state c
    tokens ++ scan next rest

def ofText (text : String) : List Token :=
  scan .between text.toList

end Token

end ItemSchema.Json
