import ItemSchema.Proofs.Expression.Clause
import ItemSchema.Proofs.Expression.Lookup
import ItemSchema.Proofs.Expression.Reading

/-! Updates read back from their tokens by the grammar of clauses. What is read of an update that
was written are its actions by their keywords, each behind those of its kind that came before it. -/
namespace ItemSchema

/-- The actions behind one keyword. -/
structure UpdateClause (ν ω : Type) where
  keyword : UpdateKeyword
  actions : List (UpdateAction ν ω)

/-- Looks up all names and operands of a clause. -/
def UpdateClause.resolve (f : ν → Option ν') (g : ω → Option ω') (clause : UpdateClause ν ω) :
    Option (UpdateClause ν' ω') := do
  return ⟨clause.keyword, ← clause.actions.mapM (UpdateAction.resolve f g)⟩

namespace UpdateAction

/-- The actions by their keywords. A keyword without actions is left out. -/
def clauses (actions : List (UpdateAction ν ω)) : List (UpdateClause ν ω) :=
  (UpdateKeyword.all.filter fun keyword => actions.any fun a => a.keyword = keyword).map
    fun keyword => ⟨keyword, actions.filter fun a => a.keyword = keyword⟩

theorem clauses_keywords (actions : List (UpdateAction ν ω)) :
    (clauses actions).map UpdateClause.keyword =
      UpdateKeyword.all.filter fun keyword => actions.any fun a => a.keyword = keyword := by
  rw [clauses, List.map_map]
  exact List.map_id _

theorem actions_of_mem_clauses {actions : List (UpdateAction ν ω)} {clause : UpdateClause ν ω}
    (member : clause ∈ clauses actions) :
    clause.actions = (actions.filter fun a => a.keyword = clause.keyword) ∧
      clause.actions ≠ [] := by
  obtain ⟨keyword, used, rfl⟩ := List.mem_map.mp member
  obtain ⟨a, given, alike⟩ := List.any_eq_true.mp (List.mem_filter.mp used).2
  exact ⟨rfl, List.ne_nil_of_mem (List.mem_filter.mpr ⟨given, alike⟩)⟩

theorem clauses_flatMap (actions : List (UpdateAction ν ω)) :
    (clauses actions).flatMap UpdateClause.actions = byClause actions := by
  have alone := byClause_flatMap actions fun a => [a]
  simp only [List.flatMap_singleton'] at alone
  rw [← alone, clauses, List.flatMap_map]

def map (f : ν → ν') (g : ω → ω') : UpdateAction ν ω → UpdateAction ν' ω'
  | .set p w => .set (p.map (Segment.map f)) (g w)
  | .remove p => .remove (p.map (Segment.map f))
  | .delete p w => .delete (p.map (Segment.map f)) (g w)

/-- Looking up what replaced a name or an operand is looking up in one step. -/
theorem resolve_map (f : ν' → Option ν'') (g : ω' → Option ω'') (h : ν → ν') (k : ω → ω')
    (a : UpdateAction ν ω) :
    (a.map h k).resolve f g = a.resolve (fun name => f (h name)) fun operand => g (k operand) := by
  cases a <;> simp only [map, resolve, List.mapM_map, Function.comp_def, Segment.resolve_map]

/-- What is found for the clauses of actions are the clauses of what was found. -/
theorem clauses_found {f : ν → Option ν'} {g : ω → Option ω'} {actions : List (UpdateAction ν ω)}
    (found : actions.mapM (resolve f g) = some as) :
    (clauses actions).mapM (UpdateClause.resolve f g) = some (clauses as) := by
  have alike : ∀ keyword a b, resolve f g a = some b →
      decide (a.keyword = keyword) = decide (b.keyword = keyword) := by
    intro keyword a b resolved
    rw [(resolve_parts resolved).1]
  have group : ∀ keyword, (actions.filter fun a => a.keyword = keyword).mapM (resolve f g) =
      some (as.filter fun a => a.keyword = keyword) :=
    fun keyword => mapM_filter (alike keyword) found
  have used : ∀ keyword, (actions.any fun a => a.keyword = keyword) =
      as.any fun a => a.keyword = keyword :=
    fun keyword => mapM_any (alike keyword) found
  have clause : ∀ keyword, UpdateClause.resolve f g
      ⟨keyword, actions.filter fun a => a.keyword = keyword⟩ =
        pure ⟨keyword, as.filter fun a => a.keyword = keyword⟩ := by
    intro keyword
    simp only [UpdateClause.resolve, group]
    rfl
  simp only [clauses, used, List.mapM_map, Function.comp_def, clause]
  exact List.mapM_pure

/-- Actions on what is below an attribute. -/
def Rooted (a : UpdateAction ν ω) : Prop :=
  ∃ name rest, a.path = .field name :: rest

end UpdateAction

namespace Expression

/-- An action over the texts of aliases. -/
abbrev WrittenAction := UpdateAction String String

def readAction (keyword : UpdateKeyword) (tokens : List Token) :
    Option (WrittenAction × List Token) := do
  let (p, rest) ← readPath tokens
  match keyword, rest with
  | .set, .symbol ['='] :: operand :: rest => return (.set p (← valueAlias? operand), rest)
  | .remove, rest => return (.remove p, rest)
  | .delete, operand :: rest => return (.delete p (← valueAlias? operand), rest)
  | _, _ => none

/-- Actions with commas between them. -/
def readActions (keyword : UpdateKeyword) (tokens : List Token) :
    Option (List WrittenAction × List Token) :=
  match readAction keyword tokens with
  | some (a, .mark ',' :: later) =>
    if later.length < tokens.length then do
      let (others, rest) ← readActions keyword later
      return (a :: others, rest)
    else none
  | some (a, rest) => some ([a], rest)
  | none => none
termination_by tokens.length

def keyword? (word : List Char) : Option UpdateKeyword :=
  UpdateKeyword.all.find? fun keyword => keyword.text.toList = word

def readClauses : List Token → Option (List (UpdateClause String String))
  | [] => some []
  | .word word :: rest =>
    match keyword? word with
    | some keyword =>
      match readActions keyword rest with
      | some (actions, later) =>
        if later.length ≤ rest.length then do
          return ⟨keyword, actions⟩ :: (← readClauses later)
        else none
      | none => none
    | none => none
  | _ => none
termination_by tokens => tokens.length

def readUpdate (text : String) : Option (List (UpdateClause String String)) :=
  readClauses (tokens text)

section

variable {stems : AliasStems} {later : List Token}

theorem readAction_written (admissible : stems.Admissible) {a : AliasedAction} (rooted : a.Rooted)
    (ends : endsPath later = true) :
    readAction a.keyword (stems.actionTokens a ++ later) =
      some (a.map stems.nameAlias stems.valueAlias, later) := by
  obtain ⟨i, rest, path⟩ := rooted
  cases a with
  | set p v =>
    cases path
    rw [AliasStems.actionTokens, List.append_assoc, readAction,
      readPath_written admissible i rest rfl]
    simp only [Option.bind_eq_bind, Option.bind_some, UpdateAction.keyword, List.cons_append,
      List.nil_append, valueAlias?_written admissible]
    rfl
  | remove p =>
    cases path
    rw [AliasStems.actionTokens, readAction, readPath_written admissible i rest ends]
    rfl
  | delete p v =>
    cases path
    rw [AliasStems.actionTokens, List.append_assoc, readAction,
      readPath_written admissible i rest rfl]
    simp only [Option.bind_eq_bind, Option.bind_some, UpdateAction.keyword, List.cons_append,
      List.nil_append, valueAlias?_written admissible]
    rfl

/-- Whether a clause is over: the keyword of the next one comes, or nothing. -/
def endsClause : List Token → Bool
  | [] | .word _ :: _ => true
  | _ => false

theorem readActions_last {ts : List Token} (read : readAction keyword ts = some (a, later))
    (ends : endsClause later = true) : readActions keyword ts = some ([a], later) := by
  rw [readActions, read]
  split
  · rename_i same
    cases same
    contradiction
  · rename_i same
    cases same
    rfl
  · contradiction

theorem readActions_next {ts : List Token}
    (read : readAction keyword ts = some (a, .mark ',' :: later))
    (progress : later.length < ts.length)
    (others : readActions keyword later = some (actions, rest)) :
    readActions keyword ts = some (a :: actions, rest) := by
  rw [readActions, read]
  simp only [if_pos progress, others]
  rfl

theorem readActions_written (admissible : stems.Admissible) {actions : List AliasedAction}
    (each : ∀ a ∈ actions, a.keyword = keyword ∧ a.Rooted) (nonempty : actions ≠ [])
    (ends : endsClause later = true) :
    readActions keyword (joinTokens [.mark ','] (actions.map stems.actionTokens) ++ later) =
      some (actions.map (UpdateAction.map stems.nameAlias stems.valueAlias), later) := by
  induction actions with
  | nil => contradiction
  | cons a rest ih =>
    obtain ⟨⟨rfl, rooted⟩, others⟩ := List.forall_mem_cons.mp each
    cases rest with
    | nil =>
      have endsPath : endsPath later = true := by
        unfold endsClause at ends
        split at ends <;> first | rfl | contradiction
      exact readActions_last (readAction_written admissible rooted endsPath) ends
    | cons b rest =>
      have tail := ih others (List.cons_ne_nil b rest)
      have head := readAction_written admissible rooted
        (rfl : endsPath (.mark ',' ::
          (joinTokens [.mark ','] ((b :: rest).map stems.actionTokens) ++ later)) = true)
      simp only [List.map_cons, joinTokens, List.append_assoc, List.cons_append, List.nil_append]
        at head tail ⊢
      refine readActions_next head ?_ tail
      simp only [List.length_append, List.length_cons]
      omega

theorem keyword?_text (keyword : UpdateKeyword) :
    keyword? keyword.text.toList = some keyword := by
  cases keyword <;> rfl

theorem endsClause_clauses (stems : AliasStems) (actions : List AliasedAction)
    (keywords : List UpdateKeyword) :
    endsClause (joinTokens [] (keywords.map (stems.clauseTokens actions))) = true := by
  cases keywords with
  | nil => rfl
  | cons keyword rest => cases rest <;> rfl

theorem readClauses_written (admissible : stems.Admissible) {actions : List AliasedAction}
    (rooted : ∀ a ∈ actions, a.Rooted) {keywords : List UpdateKeyword}
    (used : ∀ keyword ∈ keywords, ∃ a ∈ actions, a.keyword = keyword) :
    readClauses (joinTokens [] (keywords.map (stems.clauseTokens actions))) =
      some (keywords.map fun keyword => ⟨keyword, (actions.filter fun a => a.keyword = keyword).map
        (UpdateAction.map stems.nameAlias stems.valueAlias)⟩) := by
  induction keywords with
  | nil => rw [List.map_nil, joinTokens, readClauses, List.map_nil]
  | cons keyword rest ih =>
    obtain ⟨⟨a, member, here⟩, others⟩ := List.forall_mem_cons.mp used
    have split : joinTokens [] ((keyword :: rest).map (stems.clauseTokens actions)) =
        stems.clauseTokens actions keyword ++
          joinTokens [] (rest.map (stems.clauseTokens actions)) := by
      cases rest <;> simp [joinTokens]
    have each : ∀ b ∈ actions.filter fun a => a.keyword = keyword,
        b.keyword = keyword ∧ b.Rooted := by
      intro b member
      obtain ⟨member, alike⟩ := List.mem_filter.mp member
      exact ⟨of_decide_eq_true alike, rooted b member⟩
    have nonempty : actions.filter (fun a => a.keyword = keyword) ≠ [] :=
      List.ne_nil_of_mem (List.mem_filter.mpr ⟨member, decide_eq_true here⟩)
    have read := readActions_written admissible each nonempty
      (endsClause_clauses stems actions rest)
    rw [split, AliasStems.clauseTokens, List.cons_append, readClauses, keyword?_text]
    dsimp only
    rw [read]
    dsimp only
    rw [if_pos (by simp), ih others]
    rfl

theorem readUpdate_updateText (admissible : stems.Admissible) {actions : List AliasedAction}
    (rooted : ∀ a ∈ actions, a.Rooted) :
    readUpdate (stems.updateText actions) = some ((UpdateAction.clauses actions).map fun clause =>
      ⟨clause.keyword,
        clause.actions.map (UpdateAction.map stems.nameAlias stems.valueAlias)⟩) := by
  have used : ∀ keyword ∈ UpdateKeyword.all.filter fun keyword =>
      actions.any fun a => a.keyword = keyword, ∃ a ∈ actions, a.keyword = keyword := by
    intro keyword member
    simpa using (List.mem_filter.mp member).2
  rw [readUpdate, (spells_updateText admissible actions).tokens_eq, AliasStems.updateTokens,
    readClauses_written admissible rooted used, UpdateAction.clauses, List.map_map]
  rfl

end

end Expression

/-- The actions of a text that is read by the grammar, each alias taken for what it stands for. -/
def AliasTables.update? (tables : AliasTables) (text : String) :
    Option (List (UpdateClause String Wire)) := do
  let written ← Expression.readUpdate text
  written.mapM (UpdateClause.resolve (fun key => Record.find? key tables.names)
    fun key => Record.find? key tables.values)

namespace Aliases

theorem path_rooted (t : Aliases) (name : String) (rest : Path) :
    ∃ i others, (t.path (.field name :: rest)).2 = .field i :: others :=
  ⟨_, _, rfl⟩

theorem action_rooted (t : Aliases) {a : Action} (rooted : a.Rooted) :
    (t.action a).2.Rooted := by
  obtain ⟨name, rest, path⟩ := rooted
  cases a with
  | set p w | remove p | delete p w =>
    cases path
    exact t.path_rooted name rest

theorem actions_rooted (t : Aliases) {as : List Action} (rooted : ∀ a ∈ as, a.Rooted) :
    ∀ a ∈ (t.actions as).2, a.Rooted := by
  induction as generalizing t with
  | nil =>
    intro a member
    contradiction
  | cons a rest ih =>
    obtain ⟨here, behind⟩ := List.forall_mem_cons.mp rooted
    exact List.forall_mem_cons.mpr ⟨t.action_rooted here, ih (t.action a).1 behind⟩

/-- The text of an update is read back with the tables that a request has in the end: all of its
actions are there, by clauses. -/
theorem update?_compileUpdate {stems : AliasStems} (admissible : stems.Admissible) (t : Aliases)
    {as : List Action} (rooted : ∀ a ∈ as, a.Rooted)
    (later : (t.compileUpdate stems as).1.Grows final) :
    (final.tables stems).update? (t.compileUpdate stems as).2 = some (UpdateAction.clauses as) := by
  have read := Expression.readUpdate_updateText admissible (t.actions_rooted rooted)
  have found := UpdateAction.clauses_found (actions_found t as later)
  rw [AliasTables.update?, compileUpdate, read, Option.bind_eq_bind, Option.bind_some,
    List.mapM_map]
  simp only [UpdateClause.resolve, List.mapM_map, Function.comp_def, UpdateAction.resolve_map,
    find?_nameAlias, find?_valueAlias] at found ⊢
  exact found

end Aliases

end ItemSchema
