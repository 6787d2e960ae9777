import ItemSchema.Expression.Operator
import ItemSchema.Text.Split
import Mathlib.Data.List.Forall2

/-! Tokens of expressions. The scanner is a fold from the right, so what a text spells is known with
whatever stands behind it: only a run at its end must not go on there. -/
namespace ItemSchema.Expression

/-- A run of word characters or of comparison signs, or any other single character. -/
inductive Token where
  | blank
  | mark (c : Char)
  | word (text : List Char)
  | symbol (text : List Char)
  deriving DecidableEq

def isWordChar (c : Char) : Bool :=
  c.isAlphanum || c = '_' || c = '#' || c = ':'

def isSymbolChar (c : Char) : Bool :=
  c = '=' || c = '<' || c = '>'

/-- Puts a character in front of what has been scanned. -/
def Token.push (c : Char) (scanned : List Token) : List Token :=
  if c = ' ' then .blank :: scanned
  else if isWordChar c then
    match scanned with
    | .word text :: rest => .word (c :: text) :: rest
    | _ => .word [c] :: scanned
  else if isSymbolChar c then
    match scanned with
    | .symbol text :: rest => .symbol (c :: text) :: rest
    | _ => .symbol [c] :: scanned
  else .mark c :: scanned

def scan (text : List Char) (behind : List Token) : List Token :=
  text.foldr Token.push behind

/-- Blanks separate tokens and mean nothing else. -/
def significant (tokens : List Token) : List Token :=
  tokens.filter (· ≠ .blank)

def tokens (text : String) : List Token :=
  significant (scan text.toList [])

/-- Whether no run goes on. -/
def endsRun : List Token → Bool
  | .word _ :: _ | .symbol _ :: _ => false
  | _ => true

/-- The tokens of a text that no run goes on behind. -/
def Spells (text : List Char) (ts : List Token) : Prop :=
  ∀ behind, endsRun behind = true → significant (scan text behind) = ts ++ significant behind

/-- The tokens of a text that ends its own last run. -/
def SpellsClosed (text : List Char) (ts : List Token) : Prop :=
  ∀ behind, significant (scan text behind) = ts ++ significant behind

/-- Whether a text cannot go on with a run before it. -/
def StartsApart (text : List Char) : Prop :=
  ∀ behind, endsRun (scan text behind) = true

theorem scan_append (front back : List Char) (behind : List Token) :
    scan (front ++ back) behind = scan front (scan back behind) := by
  simp [scan]

theorem Spells.tokens_eq {text : String} (spells : Spells text.toList ts) : tokens text = ts := by
  simpa [tokens, significant] using spells [] rfl

theorem SpellsClosed.spells (closed : SpellsClosed text ts) : Spells text ts :=
  fun behind _ => closed behind

theorem SpellsClosed.spells_append (first : SpellsClosed front ts) (last : Spells back us) :
    Spells (front ++ back) (ts ++ us) := by
  intro behind ends
  rw [scan_append, first, last behind ends, List.append_assoc]

theorem Spells.append (first : Spells front ts) (last : Spells back us)
    (apart : StartsApart back) : Spells (front ++ back) (ts ++ us) := by
  intro behind ends
  rw [scan_append, first _ (apart behind), last behind ends, List.append_assoc]

theorem Spells.append_closed (first : Spells front ts) (last : SpellsClosed back us)
    (apart : StartsApart back) : SpellsClosed (front ++ back) (ts ++ us) := by
  intro behind
  rw [scan_append, first _ (apart behind), last, List.append_assoc]

theorem StartsApart.append (apart : StartsApart front) (back : List Char) :
    StartsApart (front ++ back) := by
  intro behind
  rw [scan_append]
  exact apart _

theorem scan_word {text : List Char} (nonempty : text ≠ [])
    (all : ∀ c ∈ text, isWordChar c = true) {behind : List Token} (ends : endsRun behind = true) :
    scan text behind = .word text :: behind := by
  induction text with
  | nil => contradiction
  | cons c rest ih =>
    obtain ⟨wordChar, later⟩ := List.forall_mem_cons.mp all
    have notBlank : c ≠ ' ' := by
      rintro rfl
      contradiction
    cases rest with
    | nil =>
      simp only [scan, List.foldr_cons, List.foldr_nil, Token.push, if_neg notBlank,
        if_pos wordChar]
      split
      · exact absurd ends Bool.false_ne_true
      · rfl
    | cons d rest =>
      have step : scan (c :: d :: rest) behind = Token.push c (scan (d :: rest) behind) := rfl
      rw [step, ih (List.cons_ne_nil d rest) later]
      simp only [Token.push, if_neg notBlank, if_pos wordChar]

theorem spells_word {text : List Char} (nonempty : text ≠ [])
    (all : ∀ c ∈ text, isWordChar c = true) : Spells text [.word text] := by
  intro behind ends
  rw [scan_word nonempty all ends]
  rfl

theorem spells_symbol (c : Comparator) : Spells c.symbol.toList [.symbol c.symbol.toList] := by
  intro behind ends
  cases behind with
  | nil => cases c <;> rfl
  | cons t rest =>
    cases t with
    | blank | mark => cases c <;> rfl
    | word | symbol => contradiction

/-- Tokens of parts with those of a separator between neighbours. -/
def joinTokens (separator : List Token) : List (List Token) → List Token
  | [] => []
  | [part] => part
  | part :: parts => part ++ separator ++ joinTokens separator parts

theorem spells_join {separator : String} {between : List Token}
    (closed : SpellsClosed separator.toList between) (apart : StartsApart separator.toList)
    (each : List.Forall₂ (fun part ts => Spells (String.toList part) ts) parts tss) :
    Spells (Text.join separator parts).toList (joinTokens between tss) := by
  induction each with
  | nil => exact fun behind _ => rfl
  | @cons part ts rest later here each ih =>
    cases each with
    | nil => exact here
    | cons next each =>
      simp only [Text.join, joinTokens, String.toList_append]
      exact (here.append_closed closed apart).spells_append ih

end ItemSchema.Expression
