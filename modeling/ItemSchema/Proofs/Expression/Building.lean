import ItemSchema.Expression.Draft
import ItemSchema.Proofs.Expression.Count
import ItemSchema.Proofs.Schema.View

/-! Conditions that are put together over a view: comparisons that were checked, joined in any way.
All of their nodes have the counts that compiling asks for, so they can always be compiled. -/
namespace ItemSchema

theorem encodeOperands_count (encoded : encodeOperands p a operator v = .ok ws) :
    operator.admitsCount ws.length = true := by
  cases operator with
  | compare | attributeType | contains | size =>
    obtain ⟨w, _, rfl⟩ := map_eq_ok.mp encoded
    rfl
  | beginsWith =>
    cases v <;> simp [encodeOperands, mismatch] at encoded
    subst encoded
    rfl
  | between =>
    rw [encodeOperands, encodeBounds] at encoded
    split at encoded
    · contradiction
    · split at encoded
      · rename_i two
        rw [mapM_length encoded, two]
        rfl
      · contradiction
  | isIn =>
    rw [encodeOperands, encodeCandidates] at encoded
    split at encoded
    · contradiction
    · split at encoded
      · rename_i admitted
        rw [mapM_length encoded, admitted]
      · contradiction
  | «exists» | notExists =>
    rw [encodeOperands] at encoded
    split at encoded
    · cases encoded
      rfl
    · contradiction

namespace SchemaView

theorem compare_ok_iff {view : SchemaView} : view.compare p operator v = .ok c ↔
    ∃ a ws, view.resolve p = .ok a ∧ a.kind.admits operator = true ∧
      encodeOperands p a operator v = .ok ws ∧ c = .comparison p operator ws := by
  simp only [compare, bind_eq_ok]
  constructor
  · rintro ⟨a, resolved, checked⟩
    cases admits : a.kind.admits operator with
    | false => simp [admits, bind, Except.bind] at checked
    | true =>
      simp only [admits, Bool.not_true, Bool.false_eq_true, if_false, except_pure, bind_eq_ok,
        Except.ok.injEq] at checked
      obtain ⟨ws, encoded, rfl⟩ := checked
      exact ⟨a, ws, resolved, admits, encoded, rfl⟩
  · rintro ⟨a, ws, resolved, admits, encoded, rfl⟩
    exact ⟨a, resolved, by simp [admits, encoded]⟩

/-- The conditions that checked comparisons can be joined to. -/
inductive Builds (view : SchemaView) : Condition → Prop where
  | comparison (compared : view.compare p operator v = .ok c) : view.Builds c
  | join (each : ∀ c ∈ children, view.Builds c)
      (joined : Condition.join operator children = .ok c) : view.Builds c

end SchemaView

theorem Condition.join_ok_iff {operator : LogicalOperator} {children : List Condition} :
    Condition.join operator children = .ok c ↔
      operator.admitsCount children.length = true ∧ c = .logical operator children := by
  unfold join
  constructor
  · intro joined
    split at joined
    · rename_i admitted
      cases joined
      exact ⟨admitted, rfl⟩
    · contradiction
  · rintro ⟨admitted, rfl⟩
    rw [if_pos admitted]

namespace SchemaView

mutual

/-- What callers write down is put together from checked comparisons. -/
theorem builds_of_condition {view : SchemaView} {draft : ConditionDraft} {c : Condition}
    (checked : view.condition draft = .ok c) : view.Builds c := by
  cases draft with
  | comparison path operator v =>
    obtain ⟨p, _, compared⟩ := bind_eq_ok.mp checked
    exact .comparison compared
  | named path operator v =>
    obtain ⟨p, _, named⟩ := bind_eq_ok.mp checked
    obtain ⟨operator, _, compared⟩ := bind_eq_ok.mp named
    exact .comparison compared
  | attributeType path tag =>
    obtain ⟨tag, _, tagged⟩ := bind_eq_ok.mp checked
    obtain ⟨p, _, compared⟩ := bind_eq_ok.mp tagged
    exact .comparison compared
  | logical operator drafts =>
    obtain ⟨children, parts, joined⟩ := bind_eq_ok.mp checked
    exact .join (builds_of_conditions parts) joined

theorem builds_of_conditions {view : SchemaView} {drafts : List ConditionDraft}
    {cs : List Condition} (checked : view.conditions drafts = .ok cs) :
    ∀ c ∈ cs, view.Builds c := by
  cases drafts with
  | nil =>
    cases checked
    simp
  | cons draft rest =>
    obtain ⟨first, head, others⟩ := bind_eq_ok.mp checked
    obtain ⟨more, tail, same⟩ := bind_eq_ok.mp others
    cases same
    exact List.forall_mem_cons.mpr ⟨builds_of_condition head, builds_of_conditions tail⟩

end

/-- What every comparison and every group has holds at all nodes. -/
theorem Builds.forall_subtrees {view : SchemaView} {P : Condition → Prop} {c : Condition}
    (builds : view.Builds c)
    (comparison : ∀ p operator v c, view.compare p operator v = .ok c → P c)
    (join : ∀ operator children c, Condition.join operator children = .ok c → P c) :
    ∀ node ∈ c.subtrees, P node := by
  induction builds with
  | comparison compared =>
    intro node member
    obtain ⟨_, _, _, _, _, rfl⟩ := compare_ok_iff.mp compared
    rw [ConditionTree.subtrees, List.mem_singleton] at member
    rw [member]
    exact comparison _ _ _ _ compared
  | @join children operator c each joined ih =>
    have root := join operator children c joined
    obtain ⟨_, rfl⟩ := Condition.join_ok_iff.mp joined
    rw [ConditionTree.subtrees, ConditionTree.subtreesOfAll_eq_flatMap]
    refine List.forall_mem_cons.mpr ⟨root, ?_⟩
    intro node member
    obtain ⟨child, among, below⟩ := List.mem_flatMap.mp member
    exact ih child among node below

/-- The path of every comparison leads somewhere in the view. -/
theorem Builds.resolves {view : SchemaView} {c : Condition} (builds : view.Builds c)
    (node : .comparison p operator ws ∈ c.subtrees) : ∃ a, view.resolve p = .ok a := by
  suffices ∀ node ∈ c.subtrees, ∀ p operator ws, node = .comparison p operator ws →
      ∃ a, view.resolve p = .ok a from this _ node p operator ws rfl
  refine builds.forall_subtrees ?_ ?_
  · intro _ _ _ _ compared p operator ws same
    obtain ⟨a, _, resolved, _, _, rfl⟩ := compare_ok_iff.mp compared
    cases same
    exact ⟨a, resolved⟩
  · intro _ _ _ joined _ _ _ same
    obtain ⟨_, rfl⟩ := Condition.join_ok_iff.mp joined
    cases same

theorem Builds.rooted {view : SchemaView} {c : Condition} (builds : view.Builds c) : c.Rooted := by
  induction builds with
  | comparison compared =>
    obtain ⟨_, _, resolved, _, _, rfl⟩ := compare_ok_iff.mp compared
    obtain ⟨name, rest, _, rfl, _⟩ := resolve_ok_iff.mp resolved
    exact .comparison name rest _ _
  | join each joined ih =>
    obtain ⟨_, rfl⟩ := Condition.join_ok_iff.mp joined
    exact .logical _ ih

theorem Builds.fits {view : SchemaView} {c : Condition} (builds : view.Builds c) :
    ∀ node ∈ c.subtrees, node.Fits := by
  refine builds.forall_subtrees ?_ ?_
  · intro p operator v c compared
    obtain ⟨a, ws, _, _, encoded, rfl⟩ := compare_ok_iff.mp compared
    exact ConditionTree.fits_comparison_iff.mpr (encodeOperands_count encoded)
  · intro operator children c joined
    obtain ⟨admitted, rfl⟩ := Condition.join_ok_iff.mp joined
    exact ConditionTree.fits_logical_iff.mpr admitted

end SchemaView

/-- Compiling takes exactly the trees that have the right count at every node, whatever aliases
there are, and reports the first other node. Conditions that were put together over a view are among
them. -/
theorem Aliases.compileCondition_outcome (t : Aliases) (stems : AliasStems) :
    (∀ (view : SchemaView) (c : Condition),
        (∃ draft, view.condition draft = .ok c) ∨ view.Builds c →
          ∃ text, (t.compileCondition stems c).2 = .ok text) ∧
      ∀ c : Condition,
        ((∃ text, (t.compileCondition stems c).2 = .ok text) ↔ ∀ node ∈ c.subtrees, node.Fits) ∧
          ∀ node : Condition, c.subtrees.find? (fun node => ¬node.Fits) = some node →
            (t.compileCondition stems c).2 = .error node.countError := by
  refine ⟨?_, fun c => ⟨t.compileCondition_ok_iff stems c, ?_⟩⟩
  · intro view c made
    have builds : view.Builds c := by
      rcases made with ⟨draft, checked⟩ | builds
      · exact SchemaView.builds_of_condition checked
      · exact builds
    exact (t.compileCondition_ok_iff stems c).mpr builds.fits
  · intro node first
    have counts := t.compileCondition_counts stems c
    rw [Condition.checkCounts_of_find? first, map_eq_error] at counts
    exact counts

namespace Archive

def schema : Schema :=
  [("id", .partitionKey .string), ("title", .scalar .string)]

/-- The aliases of another expression. -/
def taken : Aliases :=
  ⟨["id"], [.s "x"]⟩

def draft : ConditionDraft :=
  .logical .not [.logical .or [
    .between "title" (.string "a") (.string "f"),
    .named "title" "begins_with" (.string "z")]]

/-- Put together by hand: an interval with one bound, and behind it a negation of nothing. -/
def assembled : Condition :=
  .logical .and [.comparison [.field "title"] .between [.s "a"], .logical .not []]

theorem assembled_outcome :
    (∃ c, SchemaView.condition ⟨schema, .nonKeys⟩ draft = .ok c ∧
        ∃ text, (taken.compileCondition .standard c).2 = .ok text) ∧
      (taken.compileCondition .standard assembled).2 =
        .error (.invalidOperand (.path [.field "title"]) (.operandCount .between 1)) := by
  have outcome := Aliases.compileCondition_outcome taken .standard
  constructor
  · obtain ⟨c, checked⟩ : ∃ c, SchemaView.condition ⟨schema, .nonKeys⟩ draft = .ok c := ⟨_, rfl⟩
    exact ⟨c, checked, outcome.1 _ c (.inl ⟨draft, checked⟩)⟩
  · exact (outcome.2 assembled).2 (.comparison [.field "title"] .between [.s "a"]) rfl

end Archive

end ItemSchema
