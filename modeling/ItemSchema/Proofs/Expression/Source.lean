import ItemSchema.Proofs.Expression.Alias

/-! What the expressions of a request are compiled from: conditions, paths of a projection, and
actions of an update. -/
namespace ItemSchema

theorem mapM_filter {f : α → Option β} {p : α → Bool} {q : β → Bool}
    (each : ∀ x y, f x = some y → p x = q y) {xs : List α} {ys : List β}
    (found : xs.mapM f = some ys) : (xs.filter p).mapM f = some (ys.filter q) := by
  induction xs generalizing ys with
  | nil =>
    cases found
    rfl
  | cons x rest ih =>
    simp only [List.mapM_cons, Option.bind_eq_bind, Option.bind_eq_some_iff] at found
    obtain ⟨y, here, others, tail, same⟩ := found
    cases same
    rw [List.filter_cons, List.filter_cons, each x y here]
    split
    · rw [List.mapM_cons, here, ih tail]
      rfl
    · exact ih tail

theorem mapM_any {f : α → Option β} {p : α → Bool} {q : β → Bool}
    (each : ∀ x y, f x = some y → p x = q y) {xs : List α} {ys : List β}
    (found : xs.mapM f = some ys) : xs.any p = ys.any q := by
  induction xs generalizing ys with
  | nil =>
    cases found
    rfl
  | cons x rest ih =>
    simp only [List.mapM_cons, Option.bind_eq_bind, Option.bind_eq_some_iff] at found
    obtain ⟨y, here, others, tail, same⟩ := found
    cases same
    rw [List.any_cons, List.any_cons, each x y here, ih tail]

theorem flatMap_filter {chosen : α → Bool} {f : α → List β}
    (nothing : ∀ x, chosen x = false → f x = []) (xs : List α) :
    (xs.filter chosen).flatMap f = xs.flatMap f := by
  induction xs with
  | nil => rfl
  | cons x rest ih =>
    cases known : chosen x with
    | false =>
      rw [List.filter_cons_of_neg (by simp [known]), ih, List.flatMap_cons, nothing x known,
        List.nil_append]
    | true => rw [List.filter_cons_of_pos known, List.flatMap_cons, ih, List.flatMap_cons]

namespace UpdateAction

def keyword : UpdateAction ν ω → UpdateKeyword
  | .set .. => .set
  | .remove _ => .remove
  | .delete .. => .delete

def path : UpdateAction ν ω → List (Segment ν)
  | .set p _ | .remove p | .delete p _ => p

def operands : UpdateAction ν ω → List ω
  | .set _ w | .delete _ w => [w]
  | .remove _ => []

def names (a : UpdateAction ν ω) : List ν :=
  a.path.flatMap Segment.names

def resolve (f : ν → Option ν') (g : ω → Option ω') :
    UpdateAction ν ω → Option (UpdateAction ν' ω')
  | .set p w => do
    return .set (← p.mapM (Segment.resolve f)) (← g w)
  | .remove p => .remove <$> p.mapM (Segment.resolve f)
  | .delete p w => do
    return .delete (← p.mapM (Segment.resolve f)) (← g w)

theorem resolve_parts {f : ν → Option ν'} {g : ω → Option ω'} {a : UpdateAction ν ω}
    (resolved : a.resolve f g = some b) :
    a.keyword = b.keyword ∧ a.names.mapM f = some b.names ∧
      a.operands.mapM g = some b.operands := by
  cases a with
  | set p w | delete p w =>
    simp only [resolve, Option.bind_eq_bind, Option.bind_eq_some_iff] at resolved
    obtain ⟨q, path, v, value, same⟩ := resolved
    cases same
    exact ⟨rfl, Segment.resolve_names path, by simp [operands, value]⟩
  | remove p =>
    obtain ⟨q, path, rfl⟩ := Option.map_eq_some_iff.mp resolved
    exact ⟨rfl, Segment.resolve_names path, rfl⟩

/-- The actions as they stand in the text of an update: those of one clause behind one another. -/
def byClause (actions : List (UpdateAction ν ω)) : List (UpdateAction ν ω) :=
  UpdateKeyword.all.flatMap fun keyword => actions.filter fun a => a.keyword = keyword

/-- Clauses without actions add nothing. -/
theorem byClause_flatMap (actions : List (UpdateAction ν ω)) (f : UpdateAction ν ω → List β) :
    ((UpdateKeyword.all.filter fun keyword => actions.any fun a => a.keyword = keyword).flatMap
      fun keyword => (actions.filter fun a => a.keyword = keyword).flatMap f) =
      (byClause actions).flatMap f := by
  rw [byClause, List.flatMap_assoc]
  apply flatMap_filter
  intro keyword nothing
  rw [List.any_eq_false] at nothing
  rw [List.filter_eq_nil_iff.mpr nothing, List.flatMap_nil]

theorem byClause_perm (actions : List (UpdateAction ν ω)) : (byClause actions).Perm actions := by
  induction actions with
  | nil => exact .nil
  | cons a rest ih =>
    simp only [byClause, UpdateKeyword.all, List.flatMap_cons, List.flatMap_nil] at ih ⊢
    cases a with
    | set => exact ih.cons _
    | remove => exact List.perm_middle.trans (ih.cons _)
    | delete =>
      rw [← List.append_assoc] at ih ⊢
      exact List.perm_middle.trans (ih.cons _)

theorem byClause_found {f : ν → Option ν'} {g : ω → Option ω'}
    {actions : List (UpdateAction ν ω)} (found : actions.mapM (resolve f g) = some as) :
    (byClause actions).mapM (resolve f g) = some (byClause as) := by
  apply mapM_flatMap (f := some) _ rfl
  intro keyword same eq
  cases eq
  apply mapM_filter _ found
  intro a b resolved
  rw [(resolve_parts resolved).1]

end UpdateAction

/-- What an expression is compiled from. -/
inductive ExpressionSource where
  | condition (c : Condition)
  | projection (paths : List Path)
  | update (actions : List Action)

namespace ExpressionSource

/-- The names of fields in the order in which they stand in the expression. -/
def names : ExpressionSource → List String
  | .condition c => c.allNames
  | .projection paths => paths.flatMap fun p => p.flatMap Segment.names
  | .update actions => (UpdateAction.byClause actions).flatMap UpdateAction.names

/-- The values in the order in which they stand in the expression. -/
def operands : ExpressionSource → List Wire
  | .condition c => c.allOperands
  | .projection _ => []
  | .update actions => (UpdateAction.byClause actions).flatMap UpdateAction.operands

end ExpressionSource

namespace Aliases

theorem paths_grows (t : Aliases) (ps : List Path) : t.Grows (t.paths ps).1 := by
  induction ps generalizing t with
  | nil => exact .refl
  | cons p rest ih => exact (t.path_grows p).trans (ih (t.path p).1)

theorem paths_allocates (t : Aliases) (ps : List Path) :
    t.Allocates (t.paths ps).1 ((t.paths ps).2.flatMap fun p => p.flatMap Segment.names) [] := by
  induction ps generalizing t with
  | nil => exact .refl t
  | cons p rest ih => exact (t.path_allocates p).trans (ih (t.path p).1)

theorem paths_values (t : Aliases) (ps : List Path) : (t.paths ps).1.values = t.values := by
  obtain ⟨more, longer⟩ := (t.paths_grows ps).keeps.2
  have length := (t.paths_allocates ps).values.length_eq
  rw [← longer, List.append_nil, List.length_range, List.length_range, List.length_append] at length
  rw [← longer, List.length_eq_zero_iff.mp (by omega : more.length = 0), List.append_nil]

theorem paths_found (t : Aliases) (ps : List Path) (later : (t.paths ps).1.Grows final) :
    (t.paths ps).2.mapM (List.mapM final.segment?) = some ps := by
  induction ps generalizing t with
  | nil => rfl
  | cons p rest ih =>
    have first := path_found t p ((paths_grows _ rest).trans later)
    have others := ih (t.path p).1 later
    simp only [Aliases.paths, List.mapM_cons]
    rw [first, others]
    rfl

theorem action_grows (t : Aliases) (a : Action) : t.Grows (t.action a).1 := by
  cases a with
  | set p w | delete p w => exact (t.path_grows p).value w
  | remove p => exact t.path_grows p

theorem action_allocates (t : Aliases) (a : Action) :
    t.Allocates (t.action a).1 (t.action a).2.names (t.action a).2.operands := by
  cases a with
  | set p w | delete p w =>
    have allocates := (t.path_allocates p).trans ((t.path p).1.value_allocates w)
    rwa [List.append_nil] at allocates
  | remove p => exact t.path_allocates p

theorem action_found (t : Aliases) (a : Action) (later : (t.action a).1.Grows final) :
    (t.action a).2.resolve (fun i => final.names[i]?) (fun i => final.values[i]?) = some a := by
  cases a with
  | set p w | delete p w =>
    have path := path_found t p ((Grows.refl.value w).trans later)
    have value : final.values[((t.path p).1.value w).2]? = some w :=
      getElem?_of_front later.keeps.2 ((t.path p).1.value_found w)
    unfold segment? at path
    simp only [action, UpdateAction.resolve]
    rw [path, value]
    rfl
  | remove p =>
    have path := path_found t p later
    unfold segment? at path
    simp only [action, UpdateAction.resolve]
    rw [path]
    rfl

theorem actions_grows (t : Aliases) (as : List Action) : t.Grows (t.actions as).1 := by
  induction as generalizing t with
  | nil => exact .refl
  | cons a rest ih => exact (t.action_grows a).trans (ih (t.action a).1)

theorem actions_allocates (t : Aliases) (as : List Action) :
    t.Allocates (t.actions as).1 ((t.actions as).2.flatMap UpdateAction.names)
      ((t.actions as).2.flatMap UpdateAction.operands) := by
  induction as generalizing t with
  | nil => exact .refl t
  | cons a rest ih => exact (t.action_allocates a).trans (ih (t.action a).1)

theorem actions_found (t : Aliases) (as : List Action) (later : (t.actions as).1.Grows final) :
    (t.actions as).2.mapM (UpdateAction.resolve (fun i => final.names[i]?)
      fun i => final.values[i]?) = some as := by
  induction as generalizing t with
  | nil => rfl
  | cons a rest ih =>
    have first := action_found t a ((actions_grows _ rest).trans later)
    have others := ih (t.action a).1 later
    simp only [Aliases.actions, List.mapM_cons]
    rw [first, others]
    rfl

end Aliases

end ItemSchema
