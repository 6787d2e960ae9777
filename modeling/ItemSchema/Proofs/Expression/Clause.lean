import ItemSchema.Proofs.Expression.Source
import ItemSchema.Proofs.Expression.Spelling

/-! The tokens of projections and of updates. The text of an update has its actions by clauses. -/
namespace ItemSchema

open Expression

namespace AliasStems

def projectionTokens (stems : AliasStems) (paths : List AliasedPath) : List Token :=
  joinTokens [.mark ','] (paths.map stems.pathTokens)

def actionTokens (stems : AliasStems) : AliasedAction → List Token
  | .set p i => stems.pathTokens p ++ [.symbol ['='], stems.valueToken i]
  | .remove p => stems.pathTokens p
  | .delete p i => stems.pathTokens p ++ [stems.valueToken i]

def clauseTokens (stems : AliasStems) (actions : List AliasedAction) (keyword : UpdateKeyword) :
    List Token :=
  .word keyword.text.toList ::
    joinTokens [.mark ','] ((actions.filter fun a => a.keyword = keyword).map stems.actionTokens)

/-- Clauses without actions are left out. -/
def updateTokens (stems : AliasStems) (actions : List AliasedAction) : List Token :=
  joinTokens [] ((UpdateKeyword.all.filter fun keyword =>
    actions.any fun a => a.keyword = keyword).map (stems.clauseTokens actions))

end AliasStems

section

variable {stems : AliasStems}

theorem spells_projectionText (admissible : stems.Admissible) (paths : List AliasedPath) :
    Spells (stems.projectionText paths).toList (stems.projectionTokens paths) := by
  have comma : SpellsClosed ", ".toList [.mark ','] := fun _ => rfl
  apply spells_join comma (fun _ => rfl)
  rw [List.forall₂_map_left_iff, List.forall₂_map_right_iff, List.forall₂_same]
  intro p _
  exact spells_pathText admissible p

theorem spells_actionText (admissible : stems.Admissible) {a : AliasedAction}
    (written : stems.actionText? keyword a = some text) :
    Spells text.toList (stems.actionTokens a) := by
  have value : ∀ i, Spells (stems.valueAlias i).toList [stems.valueToken i] :=
    fun i => (valueAlias_isAlias admissible i).spells rfl
  cases a with
  | set p i =>
    have sign : SpellsClosed " = ".toList [.symbol ['=']] := fun _ => rfl
    have target := (spells_pathText admissible p).append_closed sign fun _ => rfl
    have spells := target.spells_append (value i)
    cases keyword with
    | set =>
      cases written
      rw [String.toList_append, String.toList_append]
      simpa [AliasStems.actionTokens] using spells
    | remove | delete => contradiction
  | remove p =>
    cases keyword with
    | remove =>
      cases written
      exact spells_pathText admissible p
    | set | delete => contradiction
  | delete p i =>
    have blank : SpellsClosed " ".toList [] := fun _ => rfl
    have target := (spells_pathText admissible p).append_closed blank fun _ => rfl
    have spells := target.spells_append (value i)
    cases keyword with
    | delete =>
      cases written
      rw [String.toList_append, String.toList_append]
      simpa [AliasStems.actionTokens] using spells
    | set | remove => contradiction

/-- Texts of some elements, and the tokens of the same elements. -/
theorem spells_filterMap {text? : α → Option String} {tokensOf : α → List Token} {chosen : α → Bool}
    (known : ∀ x, (text? x).isSome = chosen x)
    (spells : ∀ x text, text? x = some text → Spells text.toList (tokensOf x)) (xs : List α) :
    List.Forall₂ (fun part ts => Spells (String.toList part) ts) (xs.filterMap text?)
      ((xs.filter chosen).map tokensOf) := by
  induction xs with
  | nil => exact .nil
  | cons x rest ih =>
    rw [List.filter_cons, ← known]
    cases written : text? x with
    | none =>
      rw [List.filterMap_cons_none written]
      exact ih
    | some text =>
      rw [List.filterMap_cons_some written]
      exact .cons (spells x text written) ih

theorem actionText?_isSome (stems : AliasStems) (keyword : UpdateKeyword) (a : AliasedAction) :
    (stems.actionText? keyword a).isSome = decide (a.keyword = keyword) := by
  cases a <;> cases keyword <;> rfl

theorem clauseText?_isSome (stems : AliasStems) (actions : List AliasedAction)
    (keyword : UpdateKeyword) : (stems.clauseText? actions keyword).isSome =
      actions.any fun a => a.keyword = keyword := by
  rw [AliasStems.clauseText?]
  symm
  split
  · rename_i nothing
    rw [List.filterMap_eq_nil_iff] at nothing
    rw [Option.isSome_none, List.any_eq_false]
    intro a member
    rw [← actionText?_isSome stems, nothing a member]
    exact Bool.false_ne_true
  · rename_i something
    obtain ⟨text, member⟩ := List.exists_mem_of_ne_nil _ something
    obtain ⟨a, member, written⟩ := List.mem_filterMap.mp member
    rw [Option.isSome_some, List.any_eq_true]
    exact ⟨a, member, by rw [← actionText?_isSome stems, written, Option.isSome_some]⟩

theorem spells_clauseText (admissible : stems.Admissible) {actions : List AliasedAction}
    (written : stems.clauseText? actions keyword = some text) :
    Spells text.toList (stems.clauseTokens actions keyword) := by
  have comma : SpellsClosed ", ".toList [.mark ','] := fun _ => rfl
  have opening : SpellsClosed (keyword.text ++ " ").toList [.word keyword.text.toList] := by
    intro behind
    cases keyword <;> rfl
  have listed := spells_join comma (fun _ => rfl) (spells_filterMap
    (actionText?_isSome stems keyword) (fun _ _ => spells_actionText admissible) actions)
  rw [AliasStems.clauseText?] at written
  split at written
  · contradiction
  · cases written
    rw [String.toList_append]
    exact opening.spells_append listed

theorem spells_updateText (admissible : stems.Admissible) (actions : List AliasedAction) :
    Spells (stems.updateText actions).toList (stems.updateTokens actions) := by
  have blank : SpellsClosed " ".toList [] := fun _ => rfl
  exact spells_join blank (fun _ => rfl) (spells_filterMap (clauseText?_isSome stems actions)
    (fun _ _ => spells_clauseText admissible) UpdateKeyword.all)

end

end ItemSchema
