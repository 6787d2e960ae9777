import ItemSchema.Json.Printer
import ItemSchema.Json.Token
import Mathlib.Data.List.Forall2

/-! Scanning printed trees. The text of a tree is scanned as the tokens of the tree, whatever stands
behind it; numbers, which end only before another token, are left out. -/
namespace ItemSchema.Json

/-- Trees without faults and numbers. -/
inductive Textual : Json → Prop where
  | null : Textual .null
  | bool (b : Bool) : Textual (.bool b)
  | string (s : String) : Textual (.string s)
  | array {items : List Json} (each : ∀ item ∈ items, Textual item) : Textual (.array items)
  | object {members : List (String × Json)} (each : ∀ member ∈ members, Textual member.2) :
    Textual (.object members none)

theorem Textual.strings (texts : List String) : Textual (.array (texts.map .string)) := by
  apply Textual.array
  rw [List.forall_mem_map]
  intro text _
  exact .string text

namespace Token

/-- Rows of tokens with commas between them. -/
def separated : List (List Token) → List Token
  | [] => []
  | [row] => row
  | row :: rows => row ++ .comma :: separated rows

end Token

mutual

def tokens : Json → List Token
  | .null => [.null]
  | .bool b => [.bool b]
  | .number n => [.number n]
  | .string s => [.string s]
  | .array items => .openArray :: Token.separated (itemTokens items) ++ [.closeArray]
  | .object members _ => .openObject :: Token.separated (memberTokens members) ++ [.closeObject]
  | .broken _ => [.null]

def itemTokens : List Json → List (List Token)
  | [] => []
  | item :: rest => item.tokens :: itemTokens rest

def memberTokens : List (String × Json) → List (List Token)
  | [] => []
  | (key, value) :: rest => (.string key :: .colon :: value.tokens) :: memberTokens rest

end

/-- A text that is complete as a row of tokens. -/
def Spells (text : List Char) (ts : List Token) : Prop :=
  ∀ behind, Token.scan .between (text ++ behind) = ts ++ Token.scan .between behind

theorem Spells.ofText_eq {text : String} (spells : Spells text.toList ts) :
    Token.ofText text = ts := by
  have whole := spells []
  rw [List.append_nil] at whole
  rw [Token.ofText, whole, Token.scan, Token.finish, List.append_nil]

theorem Spells.append (first : Spells front ts) (last : Spells back us) :
    Spells (front ++ back) (ts ++ us) := by
  intro behind
  rw [List.append_assoc, first, last, List.append_assoc]

theorem spells_mark (mark : Token.first c = ([t], .between)) : Spells [c] [t] := by
  intro behind
  rw [List.singleton_append, Token.scan, Token.step, mark]

theorem spells_null : Spells "null".toList [.null] :=
  fun _ => rfl

theorem spells_bool (b : Bool) : Spells (print (.bool b)).toList [.bool b] := by
  cases b with
  | false => exact fun _ => rfl
  | true => exact fun _ => rfl

theorem hexValue?_hexDigit : ∀ n < 16, Token.hexValue? (hexDigit n) = some n := by
  decide

section Strings

open Token

variable (s : StringScan)

/-- A control character written with four digits. -/
theorem scan_unit (control : c.toNat < 0x20) (behind : List Char) :
    scan (.string { s with part := .escape })
        (['u', '0', '0', hexDigit (c.toNat / 16), hexDigit (c.toNat % 16)] ++ behind) =
      scan (.string (s.push c)) behind := by
  have high := hexValue?_hexDigit (c.toNat / 16) (by omega)
  have low := hexValue?_hexDigit (c.toNat % 16) (by omega)
  have zero : hexValue? '0' = some 0 := rfl
  have value : c.toNat / 16 * 16 + c.toNat % 16 = c.toNat := by omega
  have notLow : ¬0xDC00 ≤ c.toNat := by omega
  have notHigh : ¬0xD800 ≤ c.toNat := by omega
  simp [scan, step, inString, zero, high, low, value, StringScan.pushUnit, notLow, notHigh,
    StringScan.push]

theorem scan_escapeChar (plain : s.part = .plain) (c : Char) (behind : List Char) :
    scan (.string s) (escapeChar c ++ behind) = scan (.string (s.push c)) behind := by
  have escape : ∀ rest, scan (.string s) ('\\' :: rest) =
      scan (.string { s with part := .escape }) rest := by
    intro rest
    simp [scan, step, inString, plain]
  unfold escapeChar
  split
  -- No short escape stands for the character.
  case h_8 quote backslash _ _ _ _ _ =>
    split
    · rename_i control
      rw [List.cons_append, escape, scan_unit s control]
    · rename_i printable
      simp [scan, step, inString, plain, if_neg quote, if_neg backslash, printable]
  -- A short escape is one character behind the backslash.
  all_goals
    rw [List.cons_append, escape]
    rfl

theorem scan_escaped (text before behind : List Char) :
    scan (.string ⟨.plain, before, none, true⟩) (text.flatMap escapeChar ++ behind) =
      scan (.string ⟨.plain, text.reverse ++ before, none, true⟩) behind := by
  induction text generalizing before with
  | nil => rfl
  | cons c rest ih =>
    have pushed : StringScan.push ⟨.plain, before, none, true⟩ c =
      ⟨.plain, c :: before, none, true⟩ := rfl
    rw [List.flatMap_cons, List.append_assoc, scan_escapeChar _ rfl, pushed, ih, List.reverse_cons,
      List.append_assoc, List.singleton_append]

theorem spells_string (text : String) : Spells (printString text).toList [.string text] := by
  intro behind
  have opened : ∀ rest, scan .between ("\"".toList ++ rest) =
      scan (.string ⟨.plain, [], none, true⟩) rest := fun _ => rfl
  have closed : scan (.string ⟨.plain, text.toList.reverse ++ [], none, true⟩)
      ("\"".toList ++ behind) = [.string text] ++ scan .between behind := by
    simp [scan, step, inString, StringScan.token]
  simp only [printString, String.toList_append, String.toList_ofList, List.append_assoc]
  rw [opened, scan_escaped, closed]

end Strings

theorem spells_join
    (each : List.Forall₂ (fun part row => Spells (String.toList part) row) parts rows) :
    Spells (Text.join "," parts).toList (Token.separated rows) := by
  induction each with
  | nil => exact fun _ => rfl
  | @cons part row parts rows here each ih =>
    cases each with
    | nil => exact here
    | cons next each =>
      simp only [Text.join, Token.separated, String.toList_append, List.append_assoc]
      exact here.append ((spells_mark rfl).append ih)

theorem spells_items {items : List Json}
    (each : ∀ item ∈ items, Spells item.print.toList item.tokens) :
    List.Forall₂ (fun part row => Spells (String.toList part) row) (printItems items)
      (itemTokens items) := by
  induction items with
  | nil => exact .nil
  | cons item rest ih =>
    obtain ⟨here, later⟩ := List.forall_mem_cons.mp each
    exact .cons here (ih later)

theorem spells_members {members : List (String × Json)}
    (each : ∀ member ∈ members, Spells member.2.print.toList member.2.tokens) :
    List.Forall₂ (fun part row => Spells (String.toList part) row) (printMembers members)
      (memberTokens members) := by
  induction members with
  | nil => exact .nil
  | cons member rest ih =>
    obtain ⟨here, later⟩ := List.forall_mem_cons.mp each
    refine .cons ?_ (ih later)
    rw [String.toList_append, String.toList_append]
    exact ((spells_string member.1).append (spells_mark rfl)).append here

theorem spells_print (textual : Textual j) : Spells j.print.toList j.tokens := by
  induction textual with
  | null => exact spells_null
  | bool b => exact spells_bool b
  | string text => exact spells_string text
  | array _ ih =>
    rw [print, tokens, String.toList_append, String.toList_append]
    exact ((spells_mark rfl).append (spells_join (spells_items ih))).append (spells_mark rfl)
  | object _ ih =>
    rw [print, tokens, String.toList_append, String.toList_append]
    exact ((spells_mark rfl).append (spells_join (spells_members ih))).append (spells_mark rfl)

end ItemSchema.Json
