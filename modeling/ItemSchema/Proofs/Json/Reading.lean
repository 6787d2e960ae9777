import ItemSchema.Json.Reading
import ItemSchema.Proofs.Except
import ItemSchema.Proofs.Json.Parser

/-! What readers accept. Each reader of a simple type takes the trees of that type, and a text is
read through the one tree that it denotes. -/
namespace ItemSchema.Json

theorem readString_ok_iff : readString j = .ok text ↔ j = .string text := by
  cases j <;> simp [readString]

theorem readBool_ok_iff : readBool j = .ok flag ↔ j = .bool flag := by
  cases j <;> simp [readBool]

theorem readItems_ok_iff : readItems j = .ok items ↔ j = .array items := by
  cases j <;> simp [readItems]

theorem noFault_ok_iff : noFault fault = .ok done ↔ fault = none := by
  cases fault <;> simp [noFault]

theorem readStrings_ok_iff : readStrings j = .ok texts ↔ j = .array (texts.map .string) := by
  rw [readStrings, bind_eq_ok]
  constructor
  · rintro ⟨items, read, each⟩
    rw [readItems_ok_iff.mp read, (mapM_eq_ok_iff fun _ _ => readString_ok_iff).mp each]
  · rintro rfl
    exact ⟨_, rfl, (mapM_eq_ok_iff fun _ _ => readString_ok_iff).mpr rfl⟩

/-- A reader that takes nothing with a fault in it takes the texts of the trees that it takes, up to
the limit. -/
theorem read_ok_iff {reader : Json → Except ReadError α}
    (sound : ∀ {j a}, reader j = .ok a → j.intact = true) :
    (parse text).read reader = .ok a ↔
      ∃ j, Denotes text j ∧ j.depth ≤ maxDepth ∧ reader j = .ok a := by
  constructor
  · intro taken
    rcases built : build [] .value (Token.ofText text) with ⟨j, behind⟩
    have parsed : parse text = ⟨j.limit maxDepth, !behind.isEmpty⟩ := by
      rw [parse, built]
    rw [parsed, Document.read, bind_eq_ok] at taken
    obtain ⟨b, read, taken⟩ := taken
    have within : j.depth ≤ maxDepth := depth_le_of_intact_limit (sound read)
    rw [limit_of_depth_le within] at read
    cases behind with
    | nil =>
      cases taken
      exact ⟨j, built, within, read⟩
    | cons => cases taken
  · rintro ⟨j, denotes, within, read⟩
    rw [denotes.parse_eq within, Document.read, read]
    rfl

/-- The text of a tree is read as the tree is, if the tree is within the limit, and not at all if it
is not. -/
theorem read_print_iff {reader : Json → Except ReadError α}
    (sound : ∀ {j a}, reader j = .ok a → j.intact = true) (textual : Textual j) :
    (parse j.print).read reader = .ok a ↔ j.depth ≤ maxDepth ∧ reader j = .ok a := by
  rw [read_ok_iff sound]
  constructor
  · rintro ⟨k, denotes, within, read⟩
    obtain ⟨rfl, _⟩ := Prod.mk.inj (denotes.symm.trans (print_denotes textual))
    exact ⟨within, read⟩
  · rintro ⟨within, read⟩
    exact ⟨j, print_denotes textual, within, read⟩

end ItemSchema.Json
