import ItemSchema.Expression.Statement
import ItemSchema.Proofs.Except
import ItemSchema.Proofs.Expression.Tree
import ItemSchema.Proofs.Numeral.Digits
import ItemSchema.Proofs.Record

/-! Aliases as they are allocated. An alias keeps its meaning when others come behind it, no name
has two of them, and what an expression was compiled from is found again under its aliases. None of
them is allocated for anything else. -/
namespace ItemSchema

namespace Aliases

/-- The second aliases come from the first ones by allocating names and values. -/
inductive Grows (t : Aliases) : Aliases → Prop where
  | refl : Grows t t
  | name (grows : Grows t u) (n : String) : Grows t (u.name n).1
  | value (grows : Grows t u) (w : Wire) : Grows t (u.value w).1

theorem Grows.trans {t u v : Aliases} (first : t.Grows u) (second : u.Grows v) : t.Grows v := by
  induction second with
  | refl => exact first
  | name _ n ih => exact ih.name n
  | value _ w ih => exact ih.value w

theorem name_keeps (t : Aliases) (n : String) : t.names <+: (t.name n).1.names := by
  unfold name
  split
  · exact List.prefix_rfl
  · exact List.prefix_append t.names [n]

theorem value_name (t : Aliases) (n : String) : (t.name n).1.values = t.values := by
  unfold name
  split <;> rfl

theorem Grows.keeps {t u : Aliases} (grows : t.Grows u) :
    t.names <+: u.names ∧ t.values <+: u.values := by
  induction grows with
  | refl => exact ⟨List.prefix_rfl, List.prefix_rfl⟩
  | @name u _ n ih =>
    rw [value_name]
    exact ⟨ih.1.trans (u.name_keeps n), ih.2⟩
  | @value u _ w ih => exact ⟨ih.1, ih.2.trans (List.prefix_append u.values [w])⟩

/-- No name is allocated twice. -/
theorem Grows.names_nodup {t u : Aliases} (grows : t.Grows u) (distinct : t.names.Nodup) :
    u.names.Nodup := by
  induction grows with
  | refl => exact distinct
  | @name u _ n ih =>
    unfold Aliases.name
    split
    · exact ih
    · rename_i fresh
      rw [List.idxOf?_eq_none_iff] at fresh
      exact List.nodup_append.mpr ⟨ih, List.nodup_singleton n, by
        rintro m old _ new rfl
        exact fresh (List.mem_singleton.mp new ▸ old)⟩
  | value _ w ih => exact ih

theorem name_found (t : Aliases) (n : String) :
    (t.name n).1.names[(t.name n).2]? = some n := by
  unfold name
  split
  · rename_i i known
    obtain ⟨bound, same, _⟩ := List.idxOf?_eq_some_iff.mp known
    rw [List.getElem?_eq_getElem bound, same]
  · simp

theorem value_found (t : Aliases) (w : Wire) :
    (t.value w).1.values[(t.value w).2]? = some w := by
  simp [value]

theorem getElem?_of_front {xs ys : List α} {i : Nat} (front : xs <+: ys) (found : xs[i]? = some x) :
    ys[i]? = some x := by
  obtain ⟨more, rfl⟩ := front
  rw [List.getElem?_append_left (List.getElem?_eq_some_iff.mp found).1, found]

/-- The aliases that the second ones have beside the first ones are those that are listed: the names
among them may have been there before, the values are new. -/
structure Allocates (t u : Aliases) (ns vs : List Nat) : Prop where
  names : ∀ i, i < u.names.length ↔ i < t.names.length ∨ i ∈ ns
  values : (List.range u.values.length).Perm (List.range t.values.length ++ vs)

theorem Allocates.refl (t : Aliases) : t.Allocates t [] [] :=
  ⟨by simp, by simp⟩

theorem Allocates.trans {t u v : Aliases} (first : t.Allocates u ns vs)
    (second : u.Allocates v ms ws) : t.Allocates v (ns ++ ms) (vs ++ ws) := by
  constructor
  · intro i
    rw [second.names, first.names, List.mem_append, or_assoc]
  · have values := second.values.trans (first.values.append_right ws)
    rwa [List.append_assoc] at values

theorem Allocates.perm {t u : Aliases} (allocates : t.Allocates u ns vs) (names : ms.Perm ns)
    (values : ws.Perm vs) : t.Allocates u ms ws := by
  constructor
  · intro i
    rw [allocates.names, names.mem_iff]
  · exact allocates.values.trans (values.symm.append_left _)

theorem name_allocates (t : Aliases) (n : String) :
    t.Allocates (t.name n).1 [(t.name n).2] [] := by
  constructor
  · intro i
    have bound := (List.getElem?_eq_some_iff.mp (t.name_found n)).1
    rw [List.mem_singleton]
    unfold name at bound ⊢
    split at bound
    · dsimp only at bound ⊢
      omega
    · dsimp only
      rw [List.length_append, List.length_singleton]
      omega
  · simp [value_name]

theorem value_allocates (t : Aliases) (w : Wire) :
    t.Allocates (t.value w).1 [] [(t.value w).2] := by
  constructor
  · simp [value]
  · simp [value, List.range_succ]

/-- What aliases stand for. -/
def segment? (t : Aliases) : Segment Nat → Option (Segment String) :=
  Segment.resolve fun i => t.names[i]?

theorem path_grows (t : Aliases) (p : Path) : t.Grows (t.path p).1 := by
  induction p generalizing t with
  | nil => exact .refl
  | cons segment rest ih =>
    cases segment with
    | field n => exact (Grows.refl.name n).trans (ih (t.name n).1)
    | index n => exact ih t

theorem path_allocates (t : Aliases) (p : Path) :
    t.Allocates (t.path p).1 ((t.path p).2.flatMap Segment.names) [] := by
  induction p generalizing t with
  | nil => exact .refl t
  | cons segment rest ih =>
    cases segment with
    | field n => exact (t.name_allocates n).trans (ih (t.name n).1)
    | index n => exact ih t

/-- A path is found again under its aliases, also when more aliases have been allocated. -/
theorem path_found (t : Aliases) (p : Path) (later : (t.path p).1.Grows final) :
    (t.path p).2.mapM final.segment? = some p := by
  induction p generalizing t with
  | nil => rfl
  | cons segment rest ih =>
    cases segment with
    | field n =>
      have found : final.names[(t.name n).2]? = some n :=
        getElem?_of_front ((path_grows _ rest).trans later).keeps.1 (t.name_found n)
      have others := ih (t.name n).1 later
      simp only [path, List.mapM_cons, segment?, Segment.resolve] at others ⊢
      rw [found, others]
      rfl
    | index n =>
      have others := ih t later
      simp only [path, List.mapM_cons, segment?, Segment.resolve] at others ⊢
      rw [others]
      rfl

theorem operands_grows (t : Aliases) (operands : List Wire) :
    t.Grows (t.operands operands).1 := by
  induction operands generalizing t with
  | nil => exact .refl
  | cons w rest ih => exact (Grows.refl.value w).trans (ih (t.value w).1)

theorem operands_allocates (t : Aliases) (operands : List Wire) :
    t.Allocates (t.operands operands).1 [] (t.operands operands).2 := by
  induction operands generalizing t with
  | nil => exact .refl t
  | cons w rest ih => exact (t.value_allocates w).trans (ih (t.value w).1)

theorem operands_found (t : Aliases) (operands : List Wire)
    (later : (t.operands operands).1.Grows final) :
    (t.operands operands).2.mapM (fun i => final.values[i]?) = some operands := by
  induction operands generalizing t with
  | nil => rfl
  | cons w rest ih =>
    have found : final.values[(t.value w).2]? = some w :=
      getElem?_of_front ((operands_grows _ rest).trans later).keeps.2 (t.value_found w)
    have others := ih (t.value w).1 later
    simp only [operands, List.mapM_cons]
    rw [found, others]
    rfl

/-- What a condition over aliases stands for. -/
def condition? (t : Aliases) : AliasedCondition → Option Condition :=
  ConditionTree.resolve (fun i => t.names[i]?) fun i => t.values[i]?

theorem conditions_grows {children : List Condition}
    (each : ∀ c ∈ children, ∀ t : Aliases, t.Grows (t.condition c).1) (t : Aliases) :
    t.Grows (t.conditions children).1 := by
  induction children generalizing t with
  | nil => exact .refl
  | cons c rest ih =>
    obtain ⟨here, behind⟩ := List.forall_mem_cons.mp each
    have first := here t
    rw [conditions]
    split
    · rename_i v e failed
      rwa [failed] at first
    · rename_i v aliased compiled
      rw [compiled] at first
      exact first.trans (ih behind v)

/-- Also a condition that cannot be compiled leaves all aliases in their places. -/
theorem condition_grows (t : Aliases) (c : Condition) : t.Grows (t.condition c).1 := by
  induction c using ConditionTree.children_induction generalizing t with
  | comparison p operator operands =>
    rw [condition]
    split
    · exact .refl
    · exact (t.path_grows p).trans (operands_grows _ operands)
  | logical operator children ih =>
    rw [condition]
    split
    · exact .refl
    · exact conditions_grows ih t

/-- What compiling has to do with a condition. -/
structure CompilesTo (t u : Aliases) (c : Condition) (aliased : AliasedCondition) : Prop where
  allocates : t.Allocates u aliased.allNames aliased.allOperands
  counted : aliased.Counted
  rooted : c.Rooted → aliased.Rooted
  found : ∀ final, u.Grows final → final.condition? aliased = some c

theorem operands_length (t : Aliases) (operands : List Wire) :
    (t.operands operands).2.length = operands.length := by
  induction operands generalizing t with
  | nil => rfl
  | cons w rest ih => simp [Aliases.operands, ih]

theorem comparison_compiles {t : Aliases} (compiled :
    t.condition (.comparison p operator ws) = (u, .ok aliased)) :
    t.CompilesTo u (.comparison p operator ws) aliased := by
  rw [condition, checkOperandCount] at compiled
  split at compiled
  · simp at compiled
  · rename_i count
    split at count
    · rename_i admitted
      cases compiled
      have operandsGrow := (t.path p).1.operands_grows ws
      refine ⟨?_, .comparison _ ?_, ?_, ?_⟩
      · have allocates := (t.path_allocates p).trans ((t.path p).1.operands_allocates ws)
        rwa [List.append_nil] at allocates
      · rw [operands_length, admitted]
      · intro rooted
        cases rooted with
        | comparison name rest =>
          exact .comparison ..
      · intro final later
        have path := path_found t p (operandsGrow.trans later)
        have values := operands_found (t.path p).1 ws later
        unfold segment? at path
        rw [condition?, ConditionTree.resolve, path, values]
        rfl
    · contradiction

theorem conditions_compile {children : List Condition}
    (each : ∀ c ∈ children, ∀ (t u : Aliases) aliased, t.condition c = (u, .ok aliased) →
      t.CompilesTo u c aliased) {t : Aliases} (compiled : t.conditions children = (u, .ok cs)) :
    t.Allocates u (ConditionTree.namesOfAll cs) (ConditionTree.operandsOfAll cs) ∧
      cs.length = children.length ∧ (∀ a ∈ cs, a.Counted) ∧
      ((∀ c ∈ children, c.Rooted) → ∀ a ∈ cs, a.Rooted) ∧
      ∀ final : Aliases, u.Grows final →
        ConditionTree.resolveAll (fun i => final.names[i]?) (fun i => final.values[i]?) cs =
          some children := by
  induction children generalizing t u cs with
  | nil =>
    cases compiled
    exact ⟨.refl _, rfl, by simp, by simp, fun _ _ => rfl⟩
  | cons c rest ih =>
    obtain ⟨here, behind⟩ := List.forall_mem_cons.mp each
    rw [conditions] at compiled
    split at compiled
    · simp at compiled
    · rename_i v first compiledFirst
      obtain ⟨rfl, others⟩ := Prod.mk.inj compiled
      obtain ⟨cs, tail, rfl⟩ := map_eq_ok.mp others
      have first := here t v first compiledFirst
      have grows : v.Grows (v.conditions rest).1 :=
        conditions_grows (fun c _ t => condition_grows t c) v
      obtain ⟨allocates, length, counted, rooted, found⟩ := ih behind (Prod.ext rfl tail)
      refine ⟨first.allocates.trans allocates, by simp [length], ?_, ?_, ?_⟩
      · exact List.forall_mem_cons.mpr ⟨first.counted, counted⟩
      · intro each
        obtain ⟨here, behind⟩ := List.forall_mem_cons.mp each
        exact List.forall_mem_cons.mpr ⟨first.rooted here, rooted behind⟩
      · intro final later
        -- The aliases of the first condition are still there behind those of the others.
        have head := first.found final (grows.trans later)
        unfold condition? at head
        rw [ConditionTree.resolveAll, head, found final later]
        rfl

/-- A condition that was compiled is found again under its aliases, and is sound. -/
theorem condition_compiles {t : Aliases} {c : Condition}
    (compiled : t.condition c = (u, .ok aliased)) : t.CompilesTo u c aliased := by
  induction c using ConditionTree.children_induction generalizing t u aliased with
  | comparison p operator operands => exact comparison_compiles compiled
  | logical operator children ih =>
    rw [condition, checkConditionCount] at compiled
    split at compiled
    · simp at compiled
    · rename_i count
      split at count
      · rename_i admitted
        obtain ⟨rfl, all⟩ := Prod.mk.inj compiled
        obtain ⟨cs, parts, rfl⟩ := map_eq_ok.mp all
        obtain ⟨allocates, length, counted, rooted, found⟩ :=
          conditions_compile (fun c member _ _ _ compiled => ih c member compiled)
            (Prod.ext rfl parts)
        refine ⟨allocates, .logical (by rw [length, admitted]) counted, ?_, ?_⟩
        · intro root
          cases root with
          | logical _ each => exact .logical operator (rooted each)
        · intro final later
          rw [condition?, ConditionTree.resolve, found final later]
          rfl
      · contradiction

theorem compileCondition_compiles {t : Aliases} {c : Condition} {stems : AliasStems}
    (compiled : t.compileCondition stems c = (u, .ok text)) :
    ∃ aliased, text = stems.conditionText aliased ∧ t.Grows u ∧ t.CompilesTo u c aliased := by
  obtain ⟨rfl, texts⟩ := Prod.mk.inj compiled
  obtain ⟨aliased, made, rfl⟩ := map_eq_ok.mp texts
  exact ⟨aliased, rfl, t.condition_grows c, condition_compiles (Prod.ext rfl made)⟩

end Aliases

end ItemSchema
