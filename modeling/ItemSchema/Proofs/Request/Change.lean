import ItemSchema.Proofs.Expression.UpdateReading
import ItemSchema.Proofs.Request.Source
import ItemSchema.Proofs.Schema.View

/-! The changes that an update is asked to make against what its request tells the store: nothing is
lost, made twice or mixed up on the way into the clauses, and no key is touched. -/
namespace ItemSchema

/-- What an update is asked to do at a path, with the value before it is encoded. -/
abbrev Change := UpdateAction String Value

/-- What a call asks for at the path that it gives, if it is a call for an action. -/
def UpdateCall.change? : UpdateCall → Option (Except Error Change)
  | .set path v => some ((.set · v) <$> path.toPath)
  | .remove path => some (.remove <$> path.toPath)
  | .delete path members => some ((.delete · members) <$> path.toPath)
  | .key _ | .write _ => none

namespace Change

def action (table : Table) : Change → Except Error Action
  | .set p v => Update.setAction table p v
  | .remove p => Update.removeAction table p
  | .delete p members => Update.deleteAction table p members

/-- The action that a change is: at the same path, with the value as the attribute of the path
encodes it. Only from sets something is deleted. -/
inductive Is (schema : Schema) : Change → Action → Prop where
  | set (resolved : schema.resolve p = .ok a) (encoded : encodeAt p a v = .ok w) :
      Is schema (.set p v) (.set p w)
  | remove (resolved : schema.resolve p = .ok a) : Is schema (.remove p) (.remove p)
  | delete (resolved : schema.resolve p = .ok (.set of))
      (encoded : encodeAt p (.set of) members = .ok w) :
      Is schema (.delete p members) (.delete p w)

end Change

/-- The path of the action does not start at a key. -/
def Schema.Spares (schema : Schema) (a : Action) : Prop :=
  ∃ name rest, a.path = .field name :: rest ∧ schema.isPrimaryKey name = false

/-- What a request tells the store that was asked for these changes. The clauses are what is read of
its text with its tables. -/
structure UpdateRequest.Tells (r : UpdateRequest) (schema : Schema) (changes : List Change)
    (actions : List Action) (clauses : List (UpdateClause String Wire)) : Prop where
  asked : List.Forall₂ (Change.Is schema) changes actions
  read : r.aliases.update? r.update = some clauses
  /-- No keyword stands twice. -/
  keywords : (clauses.map UpdateClause.keyword).Sublist UpdateKeyword.all
  /-- The actions of a clause are all of its kind, in the order in which they were asked for. -/
  grouped : ∀ clause ∈ clauses,
    clause.actions = actions.filter fun a => a.keyword = clause.keyword
  nonempty : ∀ clause ∈ clauses, clause.actions ≠ []
  once : (clauses.flatMap UpdateClause.actions).Perm actions
  spares : ∀ a ∈ actions, schema.Spares a

section

variable {table : Table}

theorem Update.target_ok_iff {p : Path} : target table p = .ok a ↔
    table.schema.resolve p = .ok a ∧
      ∃ name rest, p = .field name :: rest ∧ table.schema.isPrimaryKey name = false := by
  rw [target]
  constructor
  · intro found
    split at found
    · contradiction
    · rename_i spared
      obtain ⟨name, rest, b, rfl, _, held, followed⟩ := SchemaView.resolve_ok_iff.mp found
      refine ⟨Schema.resolve_ok_iff.mpr ⟨name, rest, b, rfl, held, followed⟩, name, rest, rfl, ?_⟩
      simpa [Path.firstField?] using spared
  · rintro ⟨resolved, name, rest, rfl, spared⟩
    rw [if_neg (by simpa [Path.firstField?] using spared)]
    exact SchemaView.resolve_full resolved

theorem Change.is_of_action {change : Change} (made : change.action table = .ok a) :
    table.schema.Spares a ∧ change.Is table.schema a := by
  cases change with
  | set p v =>
    simp only [action, Update.setAction, bind_eq_ok, except_pure, Except.ok.injEq] at made
    obtain ⟨b, target, w, encoded, rfl⟩ := made
    obtain ⟨resolved, spares⟩ := Update.target_ok_iff.mp target
    exact ⟨spares, .set resolved encoded⟩
  | remove p =>
    simp only [action, Update.removeAction, bind_eq_ok, except_pure, Except.ok.injEq] at made
    obtain ⟨b, target, rfl⟩ := made
    obtain ⟨resolved, spares⟩ := Update.target_ok_iff.mp target
    exact ⟨spares, .remove resolved⟩
  | delete p members =>
    obtain ⟨b, target, rest⟩ := bind_eq_ok.mp made
    obtain ⟨resolved, spares⟩ := Update.target_ok_iff.mp target
    cases b with
    | set of =>
      obtain ⟨w, encoded, same⟩ := bind_eq_ok.mp rest
      cases same
      exact ⟨spares, .delete resolved encoded⟩
    | _ => cases rest

/-- A call for an action adds it behind the others. -/
theorem Update.add_change {call : UpdateCall} (asked : call.change? = some change)
    (update : Update) :
    update.add table call =
      do return update.addAction (← Change.action table (← change)) := by
  cases call with
  | key | write => contradiction
  | set path v | remove path | delete path members =>
    cases asked
    rw [add]
    cases path.toPath <;> rfl

/-- Other calls leave the actions alone. -/
theorem Update.add_other {update : Update} {call : UpdateCall} (other : call.change? = none)
    (added : update.add table call = .ok after) : after.actions = update.actions := by
  cases call with
  | key v =>
    obtain ⟨key, _, same⟩ := bind_eq_ok.mp added
    cases same
    rfl
  | write call =>
    obtain ⟨write, _, same⟩ := bind_eq_ok.mp added
    cases same
    rfl
  | set | remove | delete => contradiction

/-- After any calls there is one action for each change that they ask for, in their order. -/
theorem Update.foldlM_changes {update : Update} {calls : List UpdateCall}
    (taken : calls.foldlM (add table) update = .ok after) :
    ∃ changes actions, calls.filterMap UpdateCall.change? = changes.map .ok ∧
      List.Forall₂ (fun (change : Change) a => change.action table = .ok a) changes actions ∧
        after.actions = update.actions ++ actions := by
  induction calls generalizing update with
  | nil =>
    cases taken
    exact ⟨[], [], rfl, .nil, (List.append_nil _).symm⟩
  | cons call rest ih =>
    rw [List.foldlM_cons, bind_eq_ok] at taken
    obtain ⟨next, first, others⟩ := taken
    obtain ⟨changes, actions, asked, made, grown⟩ := ih others
    cases here : call.change? with
    | none =>
      rw [add_other here first] at grown
      rw [List.filterMap_cons_none here]
      exact ⟨changes, actions, asked, made, grown⟩
    | some change =>
      rw [add_change here, bind_eq_ok] at first
      obtain ⟨change, rfl, first⟩ := first
      obtain ⟨a, own, same⟩ := bind_eq_ok.mp first
      cases same
      refine ⟨change :: changes, a :: actions, ?_, .cons own made, ?_⟩
      · rw [List.filterMap_cons_some here, asked, List.map_cons]
      · rw [grown, addAction, List.append_assoc, List.singleton_append]

/-- The condition is compiled behind the actions and only adds aliases. -/
theorem Update.request_compiled {update : Update} (built : update.request table = .ok r) :
    ∃ final, (Aliases.empty.compileUpdate table.config.stems update.actions).1.Grows final ∧
      r.update = (Aliases.empty.compileUpdate table.config.stems update.actions).2 ∧
        r.aliases = final.tables table.config.stems := by
  rw [Update.request] at built
  cases key : update.key with
  | none =>
    rw [key] at built
    contradiction
  | some item =>
    rw [key] at built
    dsimp only at built
    split at built
    · contradiction
    · simp only [except_pure, bind_eq_ok, Except.ok.injEq] at built
      obtain ⟨write, written, rfl⟩ := built
      obtain ⟨final, rest, tables⟩ := Write.request_writes written
      exact ⟨final, rest.grows, rfl, tables⟩

theorem Update.request_tells {update : Update} {changes : List Change}
    (made : List.Forall₂ (fun (change : Change) a => change.action table = .ok a) changes
      update.actions)
    (built : update.request table = .ok r) :
    r.Tells table.schema changes update.actions (UpdateAction.clauses update.actions) := by
  have each : List.Forall₂ (fun a (change : Change) =>
      table.schema.Spares a ∧ change.Is table.schema a) update.actions changes :=
    .flip (made.imp fun _ _ => Change.is_of_action)
  obtain ⟨spares, asked⟩ := (List.forall₂_and_left _ _).mp each
  have rooted : ∀ a ∈ update.actions, a.Rooted := by
    intro a member
    obtain ⟨name, rest, path, _⟩ := spares a member
    exact ⟨name, rest, path⟩
  obtain ⟨final, later, text, tables⟩ := request_compiled built
  constructor
  case asked => exact asked.flip
  case read =>
    rw [tables, text]
    exact Aliases.update?_compileUpdate table.admissible .empty rooted later
  case keywords =>
    rw [UpdateAction.clauses_keywords]
    exact List.filter_sublist
  case grouped => exact fun clause member => (UpdateAction.actions_of_mem_clauses member).1
  case nonempty => exact fun clause member => (UpdateAction.actions_of_mem_clauses member).2
  case once =>
    rw [UpdateAction.clauses_flatMap]
    exact UpdateAction.byClause_perm _
  case spares => exact spares

/-- An update request tells what was asked for, be it by calls with the texts of paths or by changes
at paths that have no text. -/
theorem Table.update_tells (table : Table) :
    (∀ calls r, table.update calls = .ok r →
      ∃ changes actions clauses, calls.filterMap UpdateCall.change? = changes.map .ok ∧
        r.Tells table.schema changes actions clauses) ∧
      ∀ (changes : List Change) (update : Update) r,
        List.Forall₂ (fun (change : Change) a => change.action table = .ok a) changes
          update.actions →
        update.request table = .ok r →
          ∃ clauses, r.Tells table.schema changes update.actions clauses := by
  constructor
  · intro calls r built
    obtain ⟨update, taken, built⟩ := bind_eq_ok.mp built
    obtain ⟨changes, actions, asked, made, same⟩ := Update.foldlM_changes taken
    rw [Update.empty, List.nil_append] at same
    cases same
    exact ⟨changes, _, _, asked, Update.request_tells made built⟩
  · intro changes update r made built
    exact ⟨_, Update.request_tells made built⟩

end

namespace Desk

def schema : Schema :=
  [("id", .partitionKey .string), ("state", .scalar .string), ("labels", .set .string),
    ("notes", .list (some (.map [("text", .scalar .string), ("read", .scalar .date)]))),
    ("due.in", .scalar .number)]

def table : Table :=
  ⟨.ofName "desk", schema, rfl, rfl⟩

def calls : List UpdateCall :=
  [.remove "notes[2]", .set "state" (.string "open"),
    .write (.condition (.comparison "state" (.compare .ne) (.string "open"))),
    .delete "labels" (.set [.string "new", .string "new"]), .key (.map [("id", .string "t")]),
    .set "notes.[0].text" (.string "called"), .remove "notes[1].read"]

def text : String :=
  "SET #f1 = :v0, #f0[0].#f3 = :v2 REMOVE #f0[2], #f0[1].#f4 DELETE #f2 :v1"

/-- No text spells the path of this change. -/
def delay : Change :=
  .set [.field "due.in"] (.number ⟨false, 3000, 3, by decide, by decide⟩)

def delayed : Update :=
  ⟨some [("id", .s "t")], [.set [.field "due.in"] (.n "3.000")], .empty table⟩

theorem calls_told :
    (∃ r changes actions clauses, table.update calls = .ok r ∧ r.update = text ∧
      calls.filterMap UpdateCall.change? = changes.map .ok ∧
      r.Tells schema changes actions clauses) ∧
    ∃ r clauses, delayed.request table = .ok r ∧ r.update = "SET #f0 = :v0" ∧
      r.Tells schema [delay] delayed.actions clauses := by
  obtain ⟨ofCalls, ofChanges⟩ := Table.update_tells table
  constructor
  · have built : UpdateRequest.update <$> table.update calls = .ok text := by decide +kernel
    obtain ⟨r, built, written⟩ := map_eq_ok.mp built
    obtain ⟨changes, actions, clauses, asked, told⟩ := ofCalls calls r built
    exact ⟨r, changes, actions, clauses, built, written, asked, told⟩
  · have made : delay.action table = .ok (.set [.field "due.in"] (.n "3.000")) := by rfl
    have built : UpdateRequest.update <$> delayed.request table = .ok "SET #f0 = :v0" := by
      decide +kernel
    obtain ⟨r, built, written⟩ := map_eq_ok.mp built
    obtain ⟨clauses, told⟩ := ofChanges [delay] delayed r (.cons made .nil) built
    exact ⟨r, clauses, built, written, told⟩

end Desk

end ItemSchema
