import ItemSchema.Proofs.Expression.Lookup
import ItemSchema.Proofs.Expression.Numbering
import ItemSchema.Proofs.Expression.Renaming

/-! Any run of calls that share aliases. Every call numbers names by their first use in the whole
run and counts its operands on from those before it, and the tables at the end undo that. A
compilation that stops in the middle of a run is a call like the others. -/
namespace ItemSchema

/-- A call that may allocate aliases. -/
inductive AliasCall where
  | name (n : String)
  | value (w : Wire)
  | path (p : Path)
  | compile (source : ExpressionSource)

namespace AliasCall

/-- The names that a call comes across, in the order in which it does. Compiling a condition stops
at the first node that does not fit. -/
def names : AliasCall → List String
  | .name n => [n]
  | .value _ => []
  | .path p => p.flatMap Segment.names
  | .compile (.condition c) => (ConditionTree.fitting c.subtrees).flatMap ConditionTree.ownNames
  | .compile (.projection ps) => ps.flatMap fun p => p.flatMap Segment.names
  | .compile (.update as) => as.flatMap UpdateAction.names

def operands : AliasCall → List Wire
  | .name _ => []
  | .value w => [w]
  | .path _ => []
  | .compile (.condition c) => (ConditionTree.fitting c.subtrees).flatMap ConditionTree.ownOperands
  | .compile (.projection _) => []
  | .compile (.update as) => as.flatMap UpdateAction.operands

/-- What a call returns if names have these numbers and there are so many operands before it. -/
def answer (stems : AliasStems) (number : String → Nat) (count : Nat) :
    AliasCall → Except Error String
  | .name n => .ok (stems.nameAlias (number n))
  | .value _ => .ok (stems.valueAlias count)
  | .path p => .ok (stems.pathText (p.map (Segment.map number)))
  | .compile (.condition c) =>
    (fun _ => stems.conditionText (c.numbered number count)) <$> Condition.checkCounts c.subtrees
  | .compile (.projection ps) => .ok (stems.projectionText (ps.map (List.map (Segment.map number))))
  | .compile (.update as) => .ok (stems.updateText (UpdateAction.numberedAll number count as))

end AliasCall

namespace Aliases

open ConditionTree

def call (t : Aliases) (stems : AliasStems) : AliasCall → Aliases × Except Error String
  | .name n =>
    let (t, i) := t.name n
    (t, .ok (stems.nameAlias i))
  | .value w =>
    let (t, i) := t.value w
    (t, .ok (stems.valueAlias i))
  | .path p =>
    let (t, p) := t.path p
    (t, .ok (stems.pathText p))
  | .compile source => t.compile stems source

/-- Calls go on behind one that fails. -/
def callAll (t : Aliases) (stems : AliasStems) :
    List AliasCall → Aliases × List (Except Error String)
  | [] => (t, [])
  | call :: rest =>
    let (t, first) := t.call stems call
    let (t, others) := t.callAll stems rest
    (t, first :: others)

section

variable {stems : AliasStems} {all : List String}

theorem call_adds (t : Aliases) (stems : AliasStems) (call : AliasCall) :
    t.Adds (t.call stems call).1 call.names call.operands := by
  cases call with
  | name n => exact t.name_adds n
  | value w => exact t.value_adds w
  | path p => exact t.path_adds p
  | compile source =>
    cases source with
    | condition c => exact t.condition_adds c
    | projection ps => exact t.paths_adds ps
    | update as => exact t.actions_adds as

theorem compileCondition_answer (t : Aliases) (c : Condition)
    (kept : (t.condition c).1.names <+: all) :
    (t.compileCondition stems c).2 =
      (fun _ => stems.conditionText (c.numbered all.idxOf t.values.length)) <$>
        Condition.checkCounts c.subtrees := by
  rw [← t.condition_counts c, compileCondition]
  rcases compiled : t.condition c with ⟨u, result⟩
  rw [compiled] at kept
  cases result with
  | error e => rfl
  | ok aliased =>
    rw [condition_number compiled kept]
    rfl

/-- The answer of a call is settled by the numbers of the names, which later calls do not change. -/
theorem call_answer (t : Aliases) (call : AliasCall) (kept : (t.call stems call).1.names <+: all) :
    (t.call stems call).2 = call.answer stems all.idxOf t.values.length := by
  cases call with
  | name n =>
    rw [AliasCall.answer, ← t.name_number n kept]
    rfl
  | value w => rfl
  | path p =>
    rw [AliasCall.answer, ← t.path_number p kept]
    rfl
  | compile source =>
    cases source with
    | condition c => exact t.compileCondition_answer c kept
    | projection ps =>
      rw [AliasCall.answer, ← t.paths_number ps kept]
      rfl
    | update as =>
      rw [AliasCall.answer, ← t.actions_number as kept]
      rfl

theorem callAll_adds (t : Aliases) (stems : AliasStems) (calls : List AliasCall) :
    t.Adds (t.callAll stems calls).1 (calls.flatMap AliasCall.names)
      (calls.flatMap AliasCall.operands) := by
  induction calls generalizing t with
  | nil => exact .refl t
  | cons call rest ih => exact (t.call_adds stems call).trans (ih (t.call stems call).1)

theorem callAll_length (t : Aliases) (stems : AliasStems) (calls : List AliasCall) :
    (t.callAll stems calls).2.length = calls.length := by
  induction calls generalizing t with
  | nil => rfl
  | cons call rest ih => rw [callAll, List.length_cons, List.length_cons, ← ih]

theorem callAll_answer (t : Aliases) (stems : AliasStems) (before : List AliasCall)
    (call : AliasCall) (after : List AliasCall) :
    (t.callAll stems (before ++ call :: after)).2[before.length]? =
      some (call.answer stems (t.callAll stems (before ++ call :: after)).1.names.idxOf
        (t.values.length + (before.flatMap AliasCall.operands).length)) := by
  induction before generalizing t with
  | nil =>
    have kept := ((t.call stems call).1.callAll_adds stems after).keeps.1
    exact congrArg some (t.call_answer call kept)
  | cons first rest ih =>
    have later := ih (t.call stems first).1
    rw [(t.call_adds stems first).count, Nat.add_assoc, ← List.length_append] at later
    exact later

theorem callAll_concat (t : Aliases) (stems : AliasStems) (before : List AliasCall)
    (call : AliasCall) :
    (t.callAll stems (before ++ [call])).1 = ((t.callAll stems before).1.call stems call).1 := by
  induction before generalizing t with
  | nil => rfl
  | cons first rest ih => exact ih (t.call stems first).1

end

/-- How the calls of a run number names and operands, from no aliases at the start to these at the
end. -/
structure Allocation (stems : AliasStems) (calls : List AliasCall) (t : Aliases)
    (answers : List (Except Error String)) : Prop where
  names : t.names = (calls.flatMap AliasCall.names).eraseDups
  values : t.values = calls.flatMap AliasCall.operands
  length : answers.length = calls.length
  /-- A name has the same number in all answers, wherever its call stands in the run. -/
  answer : ∀ before call after, calls = before ++ call :: after →
    answers[before.length]? =
      some (call.answer stems t.names.idxOf (before.flatMap AliasCall.operands).length)
  /-- Under the alias of each number there is what has the number, and there are no other aliases. -/
  nameTable : (t.tables stems).names.Perm (t.names.mapIdx fun i n => (stems.nameAlias i, n))
  valueTable : (t.tables stems).values.Perm (t.values.mapIdx fun i w => (stems.valueAlias i, w))
  nameBack : ∀ n ∈ t.names,
    Record.find? (stems.nameAlias (t.names.idxOf n)) (t.tables stems).names = some n
  valueBack : ∀ i, Record.find? (stems.valueAlias i) (t.tables stems).values = t.values[i]?
  /-- A compilation that stops reports the node at which it does, and has added what stands in the
  nodes in front of it. -/
  stopped : ∀ before c after, calls = before ++ .compile (.condition c) :: after →
    ∀ front node back, c.subtrees = front ++ node :: back → (∀ node ∈ front, node.Fits) →
      ¬node.Fits →
      answers[before.length]? = some (.error (Condition.countError node)) ∧
        (empty.callAll stems before).1.Adds
          (empty.callAll stems (before ++ [.compile (.condition c)])).1
          (front.flatMap ownNames) (front.flatMap ownOperands)

/-- Whatever calls share aliases, successful or not, names are numbered by their first use and
operands in their order, and the tables hold all of them. -/
theorem callAll_allocation (stems : AliasStems) (calls : List AliasCall) :
    Allocation stems calls (empty.callAll stems calls).1 (empty.callAll stems calls).2 := by
  have adds := empty.callAll_adds stems calls
  have answer : ∀ before call after, calls = before ++ call :: after →
      (empty.callAll stems calls).2[before.length]? =
        some (call.answer stems (empty.callAll stems calls).1.names.idxOf
          (before.flatMap AliasCall.operands).length) := by
    rintro before call after rfl
    rw [empty.callAll_answer, empty, List.length_nil, Nat.zero_add]
  constructor
  case names => simpa [empty, List.removeAll] using adds.names
  case values => simpa [empty] using adds.values
  case length => exact empty.callAll_length stems calls
  case answer => exact answer
  case nameTable =>
    exact Record.ofList_perm (Record.keys_mapIdx_nodup AliasStems.nameAlias_injective _)
  case valueTable =>
    exact Record.ofList_perm (Record.keys_mapIdx_nodup AliasStems.valueAlias_injective _)
  case nameBack =>
    intro n member
    rw [find?_nameAlias]
    exact List.getElem?_idxOf member
  case valueBack => exact find?_valueAlias _ stems
  case stopped =>
    intro before c after run front node back nodes fits unfit
    constructor
    · have stops : Condition.checkCounts c.subtrees = .error (Condition.countError node) :=
        nodes ▸ Condition.checkCounts_of_front fits unfit back
      rw [answer before _ after run, AliasCall.answer, stops]
      rfl
    · have added := (empty.callAll stems before).1.call_adds stems (.compile (.condition c))
      rw [AliasCall.names, AliasCall.operands, nodes, fitting_of_front fits unfit] at added
      rwa [callAll_concat]

/-- The negation of nothing stops the compilation behind the name `b`. -/
example :
    let shelf : Condition := .logical .and
      [.comparison [.field "b"] (.compare .eq) [.s "1"], .logical .not [],
        .comparison [.field "c"] .exists []]
    let (t, answers) := empty.callAll ⟨"x", "x"⟩
      [.compile (.condition shelf), .path [.field "a", .index 3, .field "b"], .value (.s "2")]
    t.names = ["b", "a"] ∧ t.values = [.s "1", .s "2"] ∧
      answers =
        [.error (.invalidOperand .condition (.conditionCount .not 0)), .ok "x1[3].x0", .ok "x1"] :=
  ⟨rfl, rfl, rfl⟩

end Aliases

end ItemSchema
