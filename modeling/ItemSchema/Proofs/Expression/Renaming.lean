import ItemSchema.Proofs.Expression.Source
import Mathlib.Data.Set.Function

/-! Two runs of the compiler on expressions that differ in names and operands only. Nothing of
these gets into a text: if different names stay different, both runs write the same texts. -/
namespace ItemSchema

/-- The second tree is the first one with its names renamed and any operands, of which there are as
many in each place. -/
inductive ConditionTree.Renames {ν ν' ω ω' : Type} (f : ν → ν') :
    ConditionTree ν ω → ConditionTree ν' ω' → Prop where
  | comparison (p : List (Segment ν)) (operator : Operator) {ws : List ω} {ws' : List ω'}
      (count : ws.length = ws'.length) :
      Renames f (.comparison p operator ws) (.comparison (p.map (Segment.map f)) operator ws')
  | logical (operator : LogicalOperator) {children : List (ConditionTree ν ω)}
      {children' : List (ConditionTree ν' ω')}
      (each : List.Forall₂ (Renames f) children children') :
      Renames f (.logical operator children) (.logical operator children')

inductive UpdateAction.Renames (f : ν → ν') : UpdateAction ν ω → UpdateAction ν' ω' → Prop where
  | set (p : List (Segment ν)) (w : ω) (w' : ω') :
      Renames f (.set p w) (.set (p.map (Segment.map f)) w')
  | remove (p : List (Segment ν)) : Renames f (.remove p) (.remove (p.map (Segment.map f)))
  | delete (p : List (Segment ν)) (w : ω) (w' : ω') :
      Renames f (.delete p w) (.delete (p.map (Segment.map f)) w')

inductive ExpressionSource.Renames (f : String → String) :
    ExpressionSource → ExpressionSource → Prop where
  | condition (renames : ConditionTree.Renames f c c') : Renames f (.condition c) (.condition c')
  | projection (ps : List Path) :
      Renames f (.projection ps) (.projection (ps.map (List.map (Segment.map f))))
  | update (each : List.Forall₂ (UpdateAction.Renames f) as as') :
      Renames f (.update as) (.update as')

namespace Aliases

/-- The text of an expression, whatever it is compiled from. -/
def compile (t : Aliases) (stems : AliasStems) : ExpressionSource → Aliases × Except Error String
  | .condition c => t.compileCondition stems c
  | .projection ps =>
    let (t, text) := t.compileProjection stems ps
    (t, .ok text)
  | .update as =>
    let (t, text) := t.compileUpdate stems as
    (t, .ok text)

/-- Compiles several expressions with the same aliases, also behind one that fails. -/
def compileAll (t : Aliases) (stems : AliasStems) :
    List ExpressionSource → Aliases × List (Except Error String)
  | [] => (t, [])
  | source :: rest =>
    let (t, first) := t.compile stems source
    let (t, others) := t.compileAll stems rest
    (t, first :: others)

/-- The second aliases are the first ones with their names renamed, as far as can be seen from the
places at which names and values stand. All names are taken from a set. -/
structure Renamed (f : String → String) (known : Set String) (t u : Aliases) : Prop where
  names : u.names = t.names.map f
  count : u.values.length = t.values.length
  within : ∀ n ∈ t.names, n ∈ known

/-- Two steps that keep renamed aliases apart in the same way and give the same result. -/
structure StepsAlike (f : String → String) (known : Set String) (x y : Aliases × α) : Prop where
  aliases : Renamed f known x.1 y.1
  result : y.2 = x.2

/-- Two steps that may fail, and then both do, perhaps for different reasons. -/
inductive OutcomesAlike (f : String → String) (known : Set String) :
    Aliases × Except Error α → Aliases × Except Error α → Prop where
  | ok (renamed : Renamed f known t u) (a : α) : OutcomesAlike f known (t, .ok a) (u, .ok a)
  | error (renamed : Renamed f known t u) (e e' : Error) :
      OutcomesAlike f known (t, .error e) (u, .error e')

section

variable {f : String → String} {known : Set String} {t u : Aliases}

theorem idxOf?_map (injective : Set.InjOn f known) {names : List String} {n : String}
    (within : ∀ m ∈ names, m ∈ known) (member : n ∈ known) :
    (names.map f).idxOf? (f n) = names.idxOf? n := by
  induction names with
  | nil => rfl
  | cons m rest ih =>
    obtain ⟨here, later⟩ := List.forall_mem_cons.mp within
    rw [List.map_cons, List.idxOf?_cons, List.idxOf?_cons, ih later]
    have same : f m = f n ↔ m = n := injective.eq_iff here member
    by_cases equal : m = n <;> simp [equal, same]

theorem name_alike (injective : Set.InjOn f known) (renamed : Renamed f known t u)
    (member : n ∈ known) : StepsAlike f known (t.name n) (u.name (f n)) := by
  have position := idxOf?_map injective renamed.within member
  rw [← renamed.names] at position
  unfold name
  rw [position]
  split
  · exact ⟨renamed, rfl⟩
  · constructor
    · constructor
      · simp [renamed.names]
      · exact renamed.count
      · intro m old
        rcases List.mem_append.mp old with old | new
        · exact renamed.within m old
        · rw [List.mem_singleton.mp new]
          exact member
    · simp [renamed.names]

theorem value_alike (renamed : Renamed f known t u) (w w' : Wire) :
    StepsAlike f known (t.value w) (u.value w') := by
  constructor
  · constructor
    · exact renamed.names
    · simp [value, renamed.count]
    · exact renamed.within
  · exact renamed.count

theorem path_alike (injective : Set.InjOn f known) (renamed : Renamed f known t u) {p : Path}
    (within : ∀ n ∈ p.flatMap Segment.names, n ∈ known) :
    StepsAlike f known (t.path p) (u.path (p.map (Segment.map f))) := by
  induction p generalizing t u with
  | nil => exact ⟨renamed, rfl⟩
  | cons segment rest ih =>
    rw [List.flatMap_cons, List.forall_mem_append] at within
    obtain ⟨here, later⟩ := within
    cases segment with
    | field n =>
      have first := name_alike injective renamed (here n (List.mem_singleton.mpr rfl))
      have others := ih first.aliases later
      constructor
      · exact others.aliases
      · simp only [path, List.map_cons, Segment.map, first.result, others.result]
    | index n =>
      have others := ih renamed later
      constructor
      · exact others.aliases
      · simp only [path, List.map_cons, Segment.map, others.result]

theorem paths_alike (injective : Set.InjOn f known) (renamed : Renamed f known t u)
    {ps : List Path} (within : ∀ p ∈ ps, ∀ n ∈ p.flatMap Segment.names, n ∈ known) :
    StepsAlike f known (t.paths ps) (u.paths (ps.map (List.map (Segment.map f)))) := by
  induction ps generalizing t u with
  | nil => exact ⟨renamed, rfl⟩
  | cons p rest ih =>
    obtain ⟨here, later⟩ := List.forall_mem_cons.mp within
    have first := path_alike injective renamed here
    have others := ih first.aliases later
    constructor
    · exact others.aliases
    · simp only [paths, List.map_cons, first.result, others.result]

theorem operands_alike (renamed : Renamed f known t u) {ws ws' : List Wire}
    (count : ws.length = ws'.length) : StepsAlike f known (t.operands ws) (u.operands ws') := by
  induction ws generalizing t u ws' with
  | nil =>
    cases List.length_eq_zero_iff.mp count.symm
    exact ⟨renamed, rfl⟩
  | cons w rest ih =>
    cases ws' with
    | nil => contradiction
    | cons w' rest' =>
      have first := value_alike renamed w w'
      have others := ih first.aliases (Nat.succ.inj count)
      constructor
      · exact others.aliases
      · simp only [operands, first.result, others.result]

theorem OutcomesAlike.map {x y : Aliases × Except Error α} (alike : OutcomesAlike f known x y)
    (g : α → β) : OutcomesAlike f known (x.1, g <$> x.2) (y.1, g <$> y.2) := by
  cases alike with
  | ok renamed a => exact .ok renamed (g a)
  | error renamed e e' => exact .error renamed e e'

theorem OutcomesAlike.toOption {x y : Aliases × Except Error α}
    (alike : OutcomesAlike f known x y) : y.2.toOption = x.2.toOption := by
  cases alike <;> rfl

theorem OutcomesAlike.aliases {x y : Aliases × Except Error α}
    (alike : OutcomesAlike f known x y) : Renamed f known x.1 y.1 := by
  cases alike <;> assumption

theorem StepsAlike.ok {x y : Aliases × α} (alike : StepsAlike f known x y) (g : α → β) :
    OutcomesAlike f known (x.1, .ok (g x.2)) (y.1, .ok (g y.2)) := by
  rw [alike.result]
  exact .ok alike.aliases (g x.2)

theorem conditions_alike {children children' : List Condition}
    (renames : List.Forall₂ (ConditionTree.Renames f) children children')
    (each : ∀ c ∈ children, ∀ t u c', c.Renames f c' → Renamed f known t u →
      (∀ n ∈ c.allNames, n ∈ known) → OutcomesAlike f known (t.condition c) (u.condition c'))
    (renamed : Renamed f known t u)
    (within : ∀ c ∈ children, ∀ n ∈ c.allNames, n ∈ known) :
    OutcomesAlike f known (t.conditions children) (u.conditions children') := by
  induction renames generalizing t u with
  | nil => exact .ok renamed []
  | @cons c c' rest rest' head tail ih =>
    obtain ⟨here, later⟩ := List.forall_mem_cons.mp each
    obtain ⟨names, others⟩ := List.forall_mem_cons.mp within
    have first := here t u c' head renamed names
    rw [conditions, conditions]
    generalize t.condition c = x at first ⊢
    generalize u.condition c' = y at first ⊢
    cases first with
    | error renamed e e' => exact .error renamed e e'
    | ok renamed aliased => exact (ih later renamed others).map (aliased :: ·)

/-- Both conditions are refused at the same place, or neither is. -/
theorem condition_alike (injective : Set.InjOn f known) {c c' : Condition}
    (renames : c.Renames f c') (renamed : Renamed f known t u)
    (within : ∀ n ∈ c.allNames, n ∈ known) :
    OutcomesAlike f known (t.condition c) (u.condition c') := by
  induction c using ConditionTree.children_induction generalizing t u c' with
  | comparison p operator ws =>
    cases renames with
    | @comparison _ _ _ ws' count =>
      rw [condition, condition, checkOperandCount, checkOperandCount, ← count]
      by_cases admitted : operator.admitsCount ws.length = true
      · have path := path_alike injective renamed within
        have operands := operands_alike path.aliases count
        simp only [admitted, if_true, path.result, operands.result]
        exact .ok operands.aliases _
      · simp only [admitted]
        exact .error renamed _ _
  | logical operator children ih =>
    cases renames with
    | @logical _ _ children' each =>
      have count := each.length_eq
      rw [condition, condition, checkConditionCount, checkConditionCount, ← count]
      by_cases admitted : operator.admitsCount children.length = true
      · simp only [admitted, if_true]
        have names : ∀ c ∈ children, ∀ n ∈ c.allNames, n ∈ known := by
          intro c member n mentioned
          apply within
          rw [ConditionTree.allNames, ConditionTree.namesOfAll_eq_flatMap, List.mem_flatMap]
          exact ⟨c, member, mentioned⟩
        have all := conditions_alike each
          (fun c member t u c' renames renamed names => ih c member renames renamed names)
          renamed names
        exact all.map (ConditionTree.logical operator)
      · simp only [admitted]
        exact .error renamed _ _

theorem action_alike (injective : Set.InjOn f known) {a a' : Action} (renames : a.Renames f a')
    (renamed : Renamed f known t u) (within : ∀ n ∈ a.names, n ∈ known) :
    StepsAlike f known (t.action a) (u.action a') := by
  cases renames with
  | set p w w' | delete p w w' =>
    have path := path_alike (p := p) injective renamed within
    have value := value_alike path.aliases w w'
    constructor
    · exact value.aliases
    · simp only [action, path.result, value.result]
  | remove p =>
    have path := path_alike (p := p) injective renamed within
    constructor
    · exact path.aliases
    · simp only [action, path.result]

theorem actions_alike (injective : Set.InjOn f known) {as as' : List Action}
    (renames : List.Forall₂ (UpdateAction.Renames f) as as') (renamed : Renamed f known t u)
    (within : ∀ a ∈ as, ∀ n ∈ a.names, n ∈ known) :
    StepsAlike f known (t.actions as) (u.actions as') := by
  induction renames generalizing t u with
  | nil => exact ⟨renamed, rfl⟩
  | cons head tail ih =>
    obtain ⟨here, later⟩ := List.forall_mem_cons.mp within
    have first := action_alike injective head renamed here
    have others := ih first.aliases later
    constructor
    · exact others.aliases
    · simp only [actions, first.result, others.result]

theorem compile_alike (injective : Set.InjOn f known) {source source' : ExpressionSource}
    (renames : source.Renames f source') (renamed : Renamed f known t u)
    (within : ∀ n ∈ source.names, n ∈ known) (stems : AliasStems) :
    OutcomesAlike f known (t.compile stems source) (u.compile stems source') := by
  cases renames with
  | condition renames => exact (condition_alike injective renames renamed within).map _
  | projection ps =>
    have names : ∀ p ∈ ps, ∀ n ∈ p.flatMap Segment.names, n ∈ known := by
      intro p member n mentioned
      exact within n (List.mem_flatMap.mpr ⟨p, member, mentioned⟩)
    have steps := paths_alike injective renamed names
    exact steps.ok stems.projectionText
  | @update as as' each =>
    have order := UpdateAction.byClause_perm as
    have names : ∀ a ∈ as, ∀ n ∈ a.names, n ∈ known := by
      intro a member n mentioned
      exact within n (List.mem_flatMap.mpr ⟨a, order.mem_iff.mpr member, mentioned⟩)
    have steps := actions_alike injective each renamed names
    exact steps.ok stems.updateText

theorem compileAll_alike (injective : Set.InjOn f known)
    (renames : List.Forall₂ (ExpressionSource.Renames f) sources sources')
    (renamed : Renamed f known t u) (within : ∀ source ∈ sources, ∀ n ∈ source.names, n ∈ known)
    (stems : AliasStems) :
    (u.compileAll stems sources').2.map Except.toOption =
      (t.compileAll stems sources).2.map Except.toOption := by
  induction renames generalizing t u with
  | nil => rfl
  | cons head tail ih =>
    obtain ⟨here, later⟩ := List.forall_mem_cons.mp within
    have first := compile_alike injective head renamed here stems
    have others := ih first.aliases later
    simp only [compileAll, List.map_cons, first.toOption, others]

end

/-- What is written for expressions depends on their shapes and on which of their names are equal,
and on nothing else: with other operands, and with other names for different names, the same texts
are written and the same expressions are refused. -/
theorem compileAll_renamed {f : String → String} {sources sources' : List ExpressionSource}
    (injective : Set.InjOn f {n | ∃ source ∈ sources, n ∈ source.names})
    (renames : List.Forall₂ (ExpressionSource.Renames f) sources sources') (stems : AliasStems) :
    (empty.compileAll stems sources').2.map Except.toOption =
      (empty.compileAll stems sources).2.map Except.toOption := by
  apply compileAll_alike injective renames
  · constructor
    · rfl
    · rfl
    · simp [empty]
  · intro source member n mentioned
    exact ⟨source, member, mentioned⟩

end Aliases

namespace Shop

/-- A condition, one that is refused, a projection and an update, with names in common. -/
def listing : List ExpressionSource :=
  [.condition (.logical .or [
      .comparison [.field "state"] (.compare .eq) [.s "sold"],
      .logical .not [.comparison [.field "tags", .index 1] .beginsWith [.s "x"]]]),
    .condition (.logical .and [.comparison [.field "shelf"] .exists [], .logical .not []]),
    .projection [[.field "tags"], [.field "owner", .field "state"]],
    .update [.remove [.field "tags"], .set [.field "shelf"] (.n "1")]]

def hostileName (name : String) : String :=
  name ++ " = :v0 OR #f0"

/-- The same expressions about attributes with names that look like parts of an expression. -/
def hostile : List ExpressionSource :=
  [.condition (.logical .or [
      .comparison [.field "state = :v0 OR #f0"] (.compare .eq) [.s ":v1"],
      .logical .not [
        .comparison [.field "tags = :v0 OR #f0", .index 1] .beginsWith [.l [.null]]]]),
    .condition (.logical .and [
      .comparison [.field "shelf = :v0 OR #f0"] .exists [], .logical .not []]),
    .projection [[.field "tags = :v0 OR #f0"],
      [.field "owner = :v0 OR #f0", .field "state = :v0 OR #f0"]],
    .update [.remove [.field "tags = :v0 OR #f0"],
      .set [.field "shelf = :v0 OR #f0"] (.s "#f0, #f1")]]

theorem hostile_texts :
    Set.InjOn hostileName {n | ∃ source ∈ listing, n ∈ source.names} ∧
      List.Forall₂ (ExpressionSource.Renames hostileName) listing hostile ∧
      (Aliases.empty.compileAll .standard hostile).2.map Except.toOption =
        [some "(#f0 = :v0 OR (NOT begins_with(#f1[1], :v1)))", none, some "#f1, #f3.#f0",
          some "SET #f2 = :v2 REMOVE #f1"] := by
  have injective : Set.InjOn hostileName {n | ∃ source ∈ listing, n ∈ source.names} := by
    intro n _ m _ same
    exact String.append_left_inj _ |>.mp same
  have renames : List.Forall₂ (ExpressionSource.Renames hostileName) listing hostile := by
    refine .cons (.condition ?_) (.cons (.condition ?_) (.cons (.projection _) (.cons ?_ .nil)))
    · refine .logical .or (.cons ?_ (.cons ?_ .nil))
      · exact .comparison [.field "state"] _ rfl
      · refine .logical .not (.cons ?_ .nil)
        exact .comparison [.field "tags", .index 1] _ rfl
    · refine .logical .and (.cons ?_ (.cons ?_ .nil))
      · exact .comparison [.field "shelf"] _ rfl
      · exact .logical .not .nil
    · refine .update (.cons ?_ (.cons ?_ .nil))
      · exact .remove [.field "tags"]
      · exact .set [.field "shelf"] _ _
  refine ⟨injective, renames, ?_⟩
  rw [Aliases.compileAll_renamed injective renames]
  rfl

end Shop

end ItemSchema
