import ItemSchema.Expression.Condition

/-! Trees of conditions over names and operands of any kind: replacing these, looking them up, and
reading a group of one condition the same way whatever it was joined by. -/
namespace ItemSchema

/-- What is looked up for parts of elements is what is there in the elements that were found. -/
theorem mapM_flatMap {f : α → Option β} {g : α → List γ} {g' : β → List δ} {h : γ → Option δ}
    (each : ∀ x y, f x = some y → (g x).mapM h = some (g' y)) {xs : List α} {ys : List β}
    (found : xs.mapM f = some ys) : (xs.flatMap g).mapM h = some (ys.flatMap g') := by
  induction xs generalizing ys with
  | nil =>
    cases found
    rfl
  | cons x rest ih =>
    simp only [List.mapM_cons, Option.bind_eq_bind, Option.bind_eq_some_iff] at found
    obtain ⟨y, here, others, tail, same⟩ := found
    cases same
    rw [List.flatMap_cons, List.mapM_append, each x y here, ih tail]
    rfl

namespace Segment

def map (f : ν → ν') : Segment ν → Segment ν'
  | .field name => .field (f name)
  | .index n => .index n

def resolve (f : ν → Option ν') : Segment ν → Option (Segment ν')
  | .field name => .field <$> f name
  | .index n => some (.index n)

def names : Segment ν → List ν
  | .field name => [name]
  | .index _ => []

theorem resolve_map (f : ν' → Option ν'') (h : ν → ν') (segment : Segment ν) :
    (segment.map h).resolve f = segment.resolve fun name => f (h name) := by
  cases segment <;> rfl

/-- What is found for a path has the names that were found. -/
theorem resolve_names {f : ν → Option ν'} {p : List (Segment ν)}
    (resolved : p.mapM (resolve f) = some q) :
    (p.flatMap names).mapM f = some (q.flatMap names) := by
  apply mapM_flatMap _ resolved
  intro segment found here
  cases segment with
  | field name =>
    obtain ⟨n, bound, rfl⟩ := Option.map_eq_some_iff.mp here
    simp [names, bound]
  | index n =>
    cases here
    rfl

end Segment

/-- The operator of a group of conditions: one condition has the same text in a conjunction and in a
disjunction. -/
def LogicalOperator.ofGroup : LogicalOperator → Nat → LogicalOperator
  | .or, 1 => .and
  | operator, _ => operator

namespace ConditionTree

mutual

def map (f : ν → ν') (g : ω → ω') : ConditionTree ν ω → ConditionTree ν' ω'
  | .comparison p operator operands => .comparison (p.map (Segment.map f)) operator (operands.map g)
  | .logical operator children => .logical operator (mapAll f g children)

def mapAll (f : ν → ν') (g : ω → ω') : List (ConditionTree ν ω) → List (ConditionTree ν' ω')
  | [] => []
  | c :: rest => c.map f g :: mapAll f g rest

end

mutual

/-- Looks up all names and operands; each must be there. -/
def resolve (f : ν → Option ν') (g : ω → Option ω') :
    ConditionTree ν ω → Option (ConditionTree ν' ω')
  | .comparison p operator operands => do
    return .comparison (← p.mapM (Segment.resolve f)) operator (← operands.mapM g)
  | .logical operator children => .logical operator <$> resolveAll f g children

def resolveAll (f : ν → Option ν') (g : ω → Option ω') :
    List (ConditionTree ν ω) → Option (List (ConditionTree ν' ω'))
  | [] => some []
  | c :: rest => do
    return (← c.resolve f g) :: (← resolveAll f g rest)

end

mutual

/-- The tree with all groups of one condition taken as conjunctions. -/
def grouped : ConditionTree ν ω → ConditionTree ν ω
  | .comparison p operator operands => .comparison p operator operands
  | .logical operator children =>
    .logical (operator.ofGroup children.length) (groupedAll children)

def groupedAll : List (ConditionTree ν ω) → List (ConditionTree ν ω)
  | [] => []
  | c :: rest => c.grouped :: groupedAll rest

end

mutual

/-- The names in a condition in their order, also when they are there several times. -/
def allNames : ConditionTree ν ω → List ν
  | .comparison p _ _ => p.flatMap Segment.names
  | .logical _ children => namesOfAll children

def namesOfAll : List (ConditionTree ν ω) → List ν
  | [] => []
  | c :: rest => c.allNames ++ namesOfAll rest

end

mutual

/-- The operands in a condition in their order. -/
def allOperands : ConditionTree ν ω → List ω
  | .comparison _ _ operands => operands
  | .logical _ children => operandsOfAll children

def operandsOfAll : List (ConditionTree ν ω) → List ω
  | [] => []
  | c :: rest => c.allOperands ++ operandsOfAll rest

end

/-- Every path starts with a field. -/
inductive Rooted : ConditionTree ν ω → Prop where
  | comparison (name : ν) (rest : List (Segment ν)) (operator : Operator) (operands : List ω) :
      Rooted (.comparison (.field name :: rest) operator operands)
  | logical (operator : LogicalOperator) (each : ∀ c ∈ children, Rooted c) :
      Rooted (.logical operator children)

/-- Every operator has as many operands or conditions as it takes. -/
inductive Counted : ConditionTree ν ω → Prop where
  | comparison (p : List (Segment ν)) (count : operator.admitsCount operands.length = true) :
      Counted (.comparison p operator operands)
  | logical (count : operator.admitsCount children.length = true)
      (each : ∀ c ∈ children, Counted c) : Counted (.logical operator children)

theorem mapAll_eq_map (f : ν → ν') (g : ω → ω') (children : List (ConditionTree ν ω)) :
    mapAll f g children = children.map (ConditionTree.map f g) := by
  induction children with
  | nil => rfl
  | cons c rest ih => rw [mapAll, ih, List.map_cons]

theorem groupedAll_eq_map (children : List (ConditionTree ν ω)) :
    groupedAll children = children.map grouped := by
  induction children with
  | nil => rfl
  | cons c rest ih => rw [groupedAll, ih, List.map_cons]

theorem namesOfAll_eq_flatMap (children : List (ConditionTree ν ω)) :
    namesOfAll children = children.flatMap allNames := by
  induction children with
  | nil => rfl
  | cons c rest ih => rw [namesOfAll, ih, List.flatMap_cons]

theorem operandsOfAll_eq_flatMap (children : List (ConditionTree ν ω)) :
    operandsOfAll children = children.flatMap allOperands := by
  induction children with
  | nil => rfl
  | cons c rest ih => rw [operandsOfAll, ih, List.flatMap_cons]

theorem children_induction {P : ConditionTree ν ω → Prop}
    (comparison : ∀ p operator operands, P (.comparison p operator operands))
    (logical : ∀ operator children, (∀ c ∈ children, P c) → P (.logical operator children))
    (c : ConditionTree ν ω) : P c :=
  @ConditionTree.rec ν ω P (fun children => ∀ c ∈ children, P c) comparison logical
    (by simp) (fun _ _ first rest => List.forall_mem_cons.mpr ⟨first, rest⟩) c

theorem resolveAll_map_of_each {f : ν' → Option ν''} {g : ω' → Option ω''} {h : ν → Option ν''}
    {k : ω → Option ω''} {change : ConditionTree ν ω → ConditionTree ν' ω'}
    {after : ConditionTree ν'' ω'' → ConditionTree ν'' ω''} {children : List (ConditionTree ν ω)}
    (each : ∀ c ∈ children, (change c).resolve f g = (c.resolve h k).map after) :
    resolveAll f g (children.map change) = (resolveAll h k children).map (List.map after) := by
  induction children with
  | nil => rfl
  | cons c rest ih =>
    obtain ⟨here, behind⟩ := List.forall_mem_cons.mp each
    rw [List.map_cons, resolveAll, resolveAll, here, ih behind]
    cases c.resolve h k with
    | none => rfl
    | some first => cases resolveAll h k rest <;> rfl

/-- Looking up what replaced a name or an operand is looking up in one step. -/
theorem resolve_map (f : ν' → Option ν'') (g : ω' → Option ω'') (h : ν → ν') (k : ω → ω')
    (c : ConditionTree ν ω) :
    (c.map h k).resolve f g = c.resolve (fun name => f (h name)) fun operand => g (k operand) := by
  induction c using children_induction with
  | comparison p operator operands =>
    simp only [map, resolve, List.mapM_map, Function.comp_def, Segment.resolve_map]
  | logical operator children ih =>
    have all : resolveAll f g (children.map (ConditionTree.map h k)) =
        (resolveAll (fun name => f (h name)) (fun operand => g (k operand)) children).map
          (List.map id) :=
      resolveAll_map_of_each fun c member => by rw [ih c member, Option.map_id, id]
    rw [List.map_id_fun, Option.map_id] at all
    rw [map, resolve, mapAll_eq_map, all, resolve]
    rfl

theorem resolveAll_length {f : ν → Option ν'} {g : ω → Option ω'}
    {children : List (ConditionTree ν ω)} (resolved : resolveAll f g children = some cs) :
    cs.length = children.length := by
  induction children generalizing cs with
  | nil =>
    cases resolved
    rfl
  | cons c rest ih =>
    simp only [resolveAll, Option.bind_eq_bind, Option.bind_eq_some_iff] at resolved
    obtain ⟨first, _, others, tail, same⟩ := resolved
    cases same
    rw [List.length_cons, ih tail, List.length_cons]

theorem resolve_grouped (f : ν → Option ν') (g : ω → Option ω') (c : ConditionTree ν ω) :
    c.grouped.resolve f g = (c.resolve f g).map grouped := by
  induction c using children_induction with
  | comparison p operator operands =>
    rw [grouped, resolve]
    cases p.mapM (Segment.resolve f) with
    | none => rfl
    | some path => cases operands.mapM g <;> rfl
  | logical operator children ih =>
    have all := resolveAll_map_of_each ih
    rw [grouped, resolve, groupedAll_eq_map, all, resolve]
    cases resolved : resolveAll f g children with
    | none => rfl
    | some cs =>
      rw [Option.map_some, Option.map_eq_map, Option.map_some, Option.map_eq_map, Option.map_some,
        Option.map_some, grouped, groupedAll_eq_map, resolveAll_length resolved]

theorem resolveAll_names {f : ν → Option ν'} {g : ω → Option ω'}
    {children : List (ConditionTree ν ω)}
    (each : ∀ c ∈ children, ∀ c', c.resolve f g = some c' →
      c.allNames.mapM f = some c'.allNames ∧ c.allOperands.mapM g = some c'.allOperands)
    (resolved : resolveAll f g children = some cs) :
    (namesOfAll children).mapM f = some (namesOfAll cs) ∧
      (operandsOfAll children).mapM g = some (operandsOfAll cs) := by
  induction children generalizing cs with
  | nil =>
    cases resolved
    exact ⟨rfl, rfl⟩
  | cons c rest ih =>
    obtain ⟨here, behind⟩ := List.forall_mem_cons.mp each
    simp only [resolveAll, Option.bind_eq_bind, Option.bind_eq_some_iff] at resolved
    obtain ⟨first, head, others, tail, same⟩ := resolved
    cases same
    obtain ⟨names, operands⟩ := here first head
    obtain ⟨otherNames, otherOperands⟩ := ih behind tail
    simp [namesOfAll, operandsOfAll, names, operands, otherNames, otherOperands]

theorem resolve_names {f : ν → Option ν'} {g : ω → Option ω'} {c : ConditionTree ν ω}
    (resolved : c.resolve f g = some c') :
    c.allNames.mapM f = some c'.allNames ∧ c.allOperands.mapM g = some c'.allOperands := by
  induction c using children_induction generalizing c' with
  | comparison p operator operands =>
    simp only [resolve, Option.bind_eq_bind, Option.bind_eq_some_iff] at resolved
    obtain ⟨q, path, found, values, same⟩ := resolved
    cases same
    exact ⟨Segment.resolve_names path, values⟩
  | logical operator children ih =>
    obtain ⟨cs, all, rfl⟩ := Option.map_eq_some_iff.mp resolved
    exact resolveAll_names (fun c member _ => ih c member) all

end ConditionTree

end ItemSchema
