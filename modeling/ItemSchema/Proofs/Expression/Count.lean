import ItemSchema.Expression.Statement
import ItemSchema.Proofs.Except
import ItemSchema.Proofs.Expression.Tree

/-! The counts of operands and conditions in a tree. Compiling looks at the nodes from the top down
and from left to right, and stops at the first one that has not as many as its operator takes;
nothing else can go wrong in it. -/
namespace ItemSchema

/-- The fewest and the most operands that an operator takes. -/
def Operator.operandRange : Operator → Nat × Nat
  | .exists | .notExists => (0, 0)
  | .between => (2, 2)
  | .isIn => (1, 100)
  | .compare _ | .beginsWith | .attributeType | .contains | .size _ => (1, 1)

theorem Operator.admitsCount_iff {operator : Operator} {count : Nat} :
    operator.admitsCount count = true ↔
      operator.operandRange.1 ≤ count ∧ count ≤ operator.operandRange.2 := by
  have most : maxCandidates = 100 := rfl
  cases operator <;> simp only [admitsCount, operandRange, decide_eq_true_eq, Bool.and_eq_true] <;>
    omega

namespace ConditionTree

mutual

/-- A tree and the trees below it, each one in front of those below it. -/
def subtrees : ConditionTree ν ω → List (ConditionTree ν ω)
  | .comparison p operator operands => [.comparison p operator operands]
  | .logical operator children => .logical operator children :: subtreesOfAll children

def subtreesOfAll : List (ConditionTree ν ω) → List (ConditionTree ν ω)
  | [] => []
  | c :: rest => c.subtrees ++ subtreesOfAll rest

end

/-- A node with as many operands or conditions as its operator takes, whatever is below it. -/
def Fits : ConditionTree ν ω → Prop
  | .comparison _ operator operands =>
    operator.operandRange.1 ≤ operands.length ∧ operands.length ≤ operator.operandRange.2
  | .logical .not children => children.length = 1
  | .logical .and children | .logical .or children => 1 ≤ children.length

instance : (c : ConditionTree ν ω) → Decidable c.Fits
  | .comparison _ _ _ => inferInstanceAs (Decidable (_ ∧ _))
  | .logical .not children => inferInstanceAs (Decidable (children.length = 1))
  | .logical .and children | .logical .or children =>
    inferInstanceAs (Decidable (1 ≤ children.length))

theorem subtreesOfAll_eq_flatMap (children : List (ConditionTree ν ω)) :
    subtreesOfAll children = children.flatMap subtrees := by
  induction children with
  | nil => rfl
  | cons c rest ih => rw [subtreesOfAll, ih, List.flatMap_cons]

/-- Taking groups of one condition as conjunctions leaves every node in its place. -/
theorem subtrees_grouped (c : ConditionTree ν ω) : c.grouped.subtrees = c.subtrees.map grouped := by
  induction c using children_induction with
  | comparison p operator operands => rfl
  | logical operator children ih =>
    rw [grouped, subtrees, subtrees, groupedAll_eq_map, subtreesOfAll_eq_flatMap,
      subtreesOfAll_eq_flatMap, List.map_cons, grouped, groupedAll_eq_map, List.flatMap_map,
      List.map_flatMap, List.flatMap_def, List.flatMap_def, List.map_congr_left ih]

theorem mem_subtrees_grouped {c : ConditionTree ν ω} {p : List (Segment ν)}
    (member : .comparison p operator operands ∈ c.grouped.subtrees) :
    .comparison p operator operands ∈ c.subtrees := by
  rw [subtrees_grouped] at member
  obtain ⟨node, among, same⟩ := List.mem_map.mp member
  cases node with
  | comparison =>
    cases same
    exact among
  | logical => cases same

theorem fits_comparison_iff {p : List (Segment ν)} {operator : Operator} {operands : List ω} :
    (ConditionTree.comparison p operator operands).Fits ↔
      operator.admitsCount operands.length = true := by
  rw [Fits, Operator.admitsCount_iff]

theorem fits_logical_iff {operator : LogicalOperator} {children : List (ConditionTree ν ω)} :
    (ConditionTree.logical operator children).Fits ↔
      operator.admitsCount children.length = true := by
  cases operator <;> simp only [Fits, LogicalOperator.admitsCount, decide_eq_true_eq] <;> rfl

end ConditionTree

namespace Condition

/-- What compiling reports about a node that does not fit. -/
def countError : Condition → Error
  | .comparison p operator operands =>
    .invalidOperand (.path p) (.operandCount operator operands.length)
  | .logical operator children =>
    .invalidOperand .condition (.conditionCount operator children.length)

/-- Checks nodes in a row. The first one that does not fit is reported. -/
def checkCounts : List Condition → Except Error Unit
  | [] => .ok ()
  | node :: rest => if node.Fits then checkCounts rest else .error node.countError

theorem checkCounts_append (front back : List Condition) :
    checkCounts (front ++ back) = (do checkCounts front; checkCounts back) := by
  induction front with
  | nil => rfl
  | cons node rest ih =>
    rw [List.cons_append, checkCounts, checkCounts, ih]
    split <;> rfl

theorem checkCounts_ok_iff {nodes : List Condition} :
    checkCounts nodes = .ok () ↔ ∀ node ∈ nodes, node.Fits := by
  induction nodes with
  | nil => simp [checkCounts]
  | cons node rest ih =>
    rw [checkCounts, List.forall_mem_cons, ← ih]
    by_cases fits : node.Fits <;> simp [fits]

/-- The first node that does not fit is reported, whatever comes behind it. -/
theorem checkCounts_of_front {front : List Condition} (fits : ∀ node ∈ front, node.Fits)
    {node : Condition} (unfit : ¬node.Fits) (back : List Condition) :
    checkCounts (front ++ node :: back) = .error node.countError := by
  rw [checkCounts_append, checkCounts_ok_iff.mpr fits]
  exact if_neg unfit

theorem checkCounts_of_find? {nodes : List Condition}
    (first : nodes.find? (fun node => ¬node.Fits) = some node) :
    checkCounts nodes = .error node.countError := by
  obtain ⟨unfit, front, back, rfl, fits⟩ := List.find?_eq_some_iff_append.mp first
  exact checkCounts_of_front (by simpa using fits) (by simpa using unfit) back

end Condition

namespace Aliases

open Condition

theorem conditions_counts {children : List Condition}
    (each : ∀ c ∈ children, ∀ t : Aliases,
      (fun _ => ()) <$> (t.condition c).2 = checkCounts c.subtrees) (t : Aliases) :
    (fun _ => ()) <$> (t.conditions children).2 =
      checkCounts (ConditionTree.subtreesOfAll children) := by
  induction children generalizing t with
  | nil => rfl
  | cons c rest ih =>
    obtain ⟨here, behind⟩ := List.forall_mem_cons.mp each
    rw [ConditionTree.subtreesOfAll, checkCounts_append, ← here t, conditions]
    rcases t.condition c with ⟨u, first⟩
    cases first with
    | error e => rfl
    | ok first =>
      rw [← ih behind u]
      dsimp only
      rcases u.conditions rest with ⟨v, others⟩
      cases others <;> rfl

/-- Whether a condition is compiled, and how it fails, is up to the counts of its nodes alone. -/
theorem condition_counts (t : Aliases) (c : Condition) :
    (fun _ => ()) <$> (t.condition c).2 = checkCounts c.subtrees := by
  induction c using ConditionTree.children_induction generalizing t with
  | comparison p operator operands =>
    rw [condition, checkOperandCount, ConditionTree.subtrees, checkCounts]
    by_cases fits : (ConditionTree.comparison p operator operands).Fits
    · rw [if_pos fits, if_pos (ConditionTree.fits_comparison_iff.mp fits)]
      rfl
    · rw [if_neg fits, if_neg (mt ConditionTree.fits_comparison_iff.mpr fits)]
      rfl
  | logical operator children ih =>
    rw [condition, checkConditionCount, ConditionTree.subtrees, checkCounts]
    by_cases fits : (ConditionTree.logical operator children).Fits
    · rw [if_pos fits, if_pos (ConditionTree.fits_logical_iff.mp fits), ← conditions_counts ih t]
      rcases t.conditions children with ⟨u, result⟩
      cases result <;> rfl
    · rw [if_neg fits, if_neg (mt ConditionTree.fits_logical_iff.mpr fits)]
      rfl

theorem condition_ok_iff (t : Aliases) (c : Condition) :
    (∃ aliased, (t.condition c).2 = .ok aliased) ↔ ∀ node ∈ c.subtrees, node.Fits := by
  rw [← checkCounts_ok_iff, ← t.condition_counts c, map_eq_ok]
  simp

theorem compileCondition_counts (t : Aliases) (stems : AliasStems) (c : Condition) :
    (fun _ => ()) <$> (t.compileCondition stems c).2 = checkCounts c.subtrees := by
  rw [← t.condition_counts c, compileCondition]
  rcases t.condition c with ⟨u, result⟩
  cases result <;> rfl

theorem compileCondition_ok_iff (t : Aliases) (stems : AliasStems) (c : Condition) :
    (∃ text, (t.compileCondition stems c).2 = .ok text) ↔ ∀ node ∈ c.subtrees, node.Fits := by
  rw [← checkCounts_ok_iff, ← t.compileCondition_counts stems c, map_eq_ok]
  simp

end Aliases

end ItemSchema
