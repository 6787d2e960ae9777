import ItemSchema.Proofs.Expression.Count
import ItemSchema.Proofs.Expression.Source
import Mathlib.Data.List.TakeWhile

/-! Which numbers aliases get. A name has the number of its first use among all names, also when
others come behind it, and operands are numbered one after the other; that settles every expression
over aliases, and what a compilation that stops has added. -/
namespace ItemSchema

namespace ConditionTree

/-- The names of a node itself, in their order. -/
def ownNames : ConditionTree ν ω → List ν
  | .comparison p _ _ => p.flatMap Segment.names
  | .logical _ _ => []

def ownOperands : ConditionTree ν ω → List ω
  | .comparison _ _ operands => operands
  | .logical _ _ => []

/-- The nodes in front of the first one that does not fit. -/
def fitting (nodes : List (ConditionTree ν ω)) : List (ConditionTree ν ω) :=
  nodes.takeWhile fun node => node.Fits

mutual

/-- The tree over numbers: those of the names are known, and operands are counted on. -/
def numbered (number : ν → Nat) (count : Nat) : ConditionTree ν ω → ConditionTree Nat Nat
  | .comparison p operator operands =>
    .comparison (p.map (Segment.map number)) operator (List.range' count operands.length)
  | .logical operator children => .logical operator (numberedAll number count children)

def numberedAll (number : ν → Nat) (count : Nat) :
    List (ConditionTree ν ω) → List (ConditionTree Nat Nat)
  | [] => []
  | c :: rest =>
    c.numbered number count :: numberedAll number (count + c.allOperands.length) rest

end

theorem flatMap_ownOperands (c : ConditionTree ν ω) :
    c.subtrees.flatMap ownOperands = c.allOperands := by
  induction c using children_induction with
  | comparison p operator operands => simp [subtrees, ownOperands, allOperands]
  | logical operator children ih =>
    rw [subtrees, subtreesOfAll_eq_flatMap, List.flatMap_cons, List.flatMap_assoc, allOperands,
      operandsOfAll_eq_flatMap, List.flatMap_congr ih]
    rfl

theorem fitting_cons (node : ConditionTree ν ω) (rest : List (ConditionTree ν ω)) :
    fitting (node :: rest) = if node.Fits then node :: fitting rest else [] := by
  by_cases fits : node.Fits <;> simp [fitting, fits]

theorem fitting_of_fits {nodes : List (ConditionTree ν ω)} (fits : ∀ node ∈ nodes, node.Fits) :
    fitting nodes = nodes :=
  List.takeWhile_eq_self_iff.mpr fun node member => decide_eq_true (fits node member)

theorem fitting_append_of_fits {front : List (ConditionTree ν ω)}
    (fits : ∀ node ∈ front, node.Fits) (back : List (ConditionTree ν ω)) :
    fitting (front ++ back) = front ++ fitting back :=
  List.takeWhile_append_of_pos fun node member => decide_eq_true (fits node member)

/-- Behind a node that does not fit nothing counts. -/
theorem fitting_append_of_unfit {front : List (ConditionTree ν ω)}
    (unfit : ¬∀ node ∈ front, node.Fits) (back : List (ConditionTree ν ω)) :
    fitting (front ++ back) = fitting front := by
  induction front with
  | nil => exact absurd (List.forall_mem_nil _) unfit
  | cons node rest ih =>
    rw [List.forall_mem_cons] at unfit
    rw [List.cons_append, fitting_cons, fitting_cons]
    by_cases fits : node.Fits
    · rw [ih fun all => unfit ⟨fits, all⟩]
    · rw [if_neg fits, if_neg fits]

theorem fitting_of_front {front : List (ConditionTree ν ω)} (fits : ∀ node ∈ front, node.Fits)
    {node : ConditionTree ν ω} (unfit : ¬node.Fits) (back : List (ConditionTree ν ω)) :
    fitting (front ++ node :: back) = front := by
  rw [fitting_append_of_fits fits, fitting_cons, if_neg unfit, List.append_nil]

end ConditionTree

namespace UpdateAction

/-- The action over numbers. -/
def numbered (number : ν → Nat) (count : Nat) : UpdateAction ν ω → UpdateAction Nat Nat
  | .set p _ => .set (p.map (Segment.map number)) count
  | .remove p => .remove (p.map (Segment.map number))
  | .delete p _ => .delete (p.map (Segment.map number)) count

def numberedAll (number : ν → Nat) (count : Nat) :
    List (UpdateAction ν ω) → List (UpdateAction Nat Nat)
  | [] => []
  | a :: rest => a.numbered number count :: numberedAll number (count + a.operands.length) rest

end UpdateAction

namespace Aliases

open ConditionTree

variable {all : List String}

/-- What aliases become when names and operands are come across in this order: of a new name the
first occurrence is added, and every operand. -/
structure Adds (t u : Aliases) (ns : List String) (ws : List Wire) : Prop where
  names : u.names = t.names ++ (ns.removeAll t.names).eraseDups
  values : u.values = t.values ++ ws

namespace Adds

variable {t u v : Aliases}

theorem refl (t : Aliases) : t.Adds t [] [] := by
  constructor <;> simp [List.removeAll]

theorem trans (first : t.Adds u ns ws) (second : u.Adds v ms xs) :
    t.Adds v (ns ++ ms) (ws ++ xs) := by
  constructor
  · -- Of the names in the second row those are old that were there or came with the first row.
    have fresh : ms.removeAll u.names = (ms.removeAll t.names).removeAll (ns.removeAll t.names) := by
      rw [first.names]
      simp only [List.removeAll, List.filter_filter]
      apply List.filter_congr
      intro n _
      by_cases old : n ∈ t.names <;> simp [old]
    rw [second.names, fresh, first.names, List.append_assoc]
    simp only [List.removeAll, List.filter_append, List.eraseDups_append]
  · rw [second.values, first.values, List.append_assoc]

theorem keeps (adds : t.Adds u ns ws) : t.names <+: u.names ∧ t.values <+: u.values :=
  ⟨adds.names ▸ List.prefix_append .., adds.values ▸ List.prefix_append ..⟩

theorem count (adds : t.Adds u ns ws) : u.values.length = t.values.length + ws.length := by
  rw [adds.values, List.length_append]

end Adds

theorem name_adds (t : Aliases) (n : String) : t.Adds (t.name n).1 [n] [] := by
  constructor
  · unfold name
    split
    · rename_i i known
      have old : n ∈ t.names := by
        by_contra fresh
        rw [List.idxOf?_eq_none_iff.mpr fresh] at known
        contradiction
      simp [List.removeAll, old]
    · rename_i fresh
      rw [List.idxOf?_eq_none_iff] at fresh
      simp [List.removeAll, fresh, List.eraseDups_cons]
  · rw [value_name, List.append_nil]

theorem value_adds (t : Aliases) (w : Wire) : t.Adds (t.value w).1 [] [w] := by
  constructor <;> simp [value, List.removeAll]

/-- The number of a name is that of its first occurrence, now and later. -/
theorem name_number (t : Aliases) (n : String) (kept : (t.name n).1.names <+: all) :
    (t.name n).2 = all.idxOf n := by
  obtain ⟨more, rfl⟩ := kept
  rw [List.idxOf_append_of_mem (List.mem_of_getElem? (t.name_found n))]
  unfold name
  split
  · rename_i i known
    rw [List.idxOf_eq_getD_idxOf?, known]
    rfl
  · rename_i fresh
    rw [List.idxOf?_eq_none_iff] at fresh
    rw [List.idxOf_append_of_notMem fresh, List.idxOf_cons_self]
    rfl

theorem path_adds (t : Aliases) (p : Path) : t.Adds (t.path p).1 (p.flatMap Segment.names) [] := by
  induction p generalizing t with
  | nil => exact .refl t
  | cons segment rest ih =>
    cases segment with
    | field n => exact (t.name_adds n).trans (ih (t.name n).1)
    | index n => exact ih t

theorem path_number (t : Aliases) (p : Path) (kept : (t.path p).1.names <+: all) :
    (t.path p).2 = p.map (Segment.map all.idxOf) := by
  induction p generalizing t with
  | nil => rfl
  | cons segment rest ih =>
    cases segment with
    | field n =>
      have first := t.name_number n ((path_adds _ rest).keeps.1.trans kept)
      have others := ih (t.name n).1 kept
      rw [path, List.map_cons, Segment.map, ← first, ← others]
    | index n =>
      have others := ih t kept
      rw [path, List.map_cons, Segment.map, ← others]

theorem paths_adds (t : Aliases) (ps : List Path) :
    t.Adds (t.paths ps).1 (ps.flatMap fun p => p.flatMap Segment.names) [] := by
  induction ps generalizing t with
  | nil => exact .refl t
  | cons p rest ih => exact (t.path_adds p).trans (ih (t.path p).1)

theorem paths_number (t : Aliases) (ps : List Path) (kept : (t.paths ps).1.names <+: all) :
    (t.paths ps).2 = ps.map (List.map (Segment.map all.idxOf)) := by
  induction ps generalizing t with
  | nil => rfl
  | cons p rest ih =>
    have first := t.path_number p ((paths_adds _ rest).keeps.1.trans kept)
    have others := ih (t.path p).1 kept
    rw [paths, List.map_cons, ← first, ← others]

theorem operands_adds (t : Aliases) (ws : List Wire) : t.Adds (t.operands ws).1 [] ws := by
  induction ws generalizing t with
  | nil => exact .refl t
  | cons w rest ih => exact (t.value_adds w).trans (ih (t.value w).1)

theorem operands_number (t : Aliases) (ws : List Wire) :
    (t.operands ws).2 = List.range' t.values.length ws.length := by
  induction ws generalizing t with
  | nil => rfl
  | cons w rest ih =>
    have others := ih (t.value w).1
    rw [(t.value_adds w).count, List.length_singleton] at others
    rw [operands, List.length_cons, List.range'_succ, ← others]
    rfl

theorem action_adds (t : Aliases) (a : Action) :
    t.Adds (t.action a).1 a.names a.operands := by
  cases a with
  | set p w | delete p w =>
    have adds := (t.path_adds p).trans ((t.path p).1.value_adds w)
    rwa [List.append_nil] at adds
  | remove p => exact t.path_adds p

theorem actions_adds (t : Aliases) (as : List Action) :
    t.Adds (t.actions as).1 (as.flatMap UpdateAction.names) (as.flatMap UpdateAction.operands) := by
  induction as generalizing t with
  | nil => exact .refl t
  | cons a rest ih => exact (t.action_adds a).trans (ih (t.action a).1)

theorem action_number (t : Aliases) (a : Action) (kept : (t.action a).1.names <+: all) :
    (t.action a).2 = a.numbered all.idxOf t.values.length := by
  cases a with
  | set p w | delete p w =>
    have keptPath := ((t.path p).1.value_adds w).keeps.1.trans kept
    have count := (t.path_adds p).count
    rw [action, UpdateAction.numbered, ← t.path_number p keptPath]
    simpa [value] using count
  | remove p => rw [action, UpdateAction.numbered, ← t.path_number p kept]

theorem actions_number (t : Aliases) (as : List Action) (kept : (t.actions as).1.names <+: all) :
    (t.actions as).2 = UpdateAction.numberedAll all.idxOf t.values.length as := by
  induction as generalizing t with
  | nil => rfl
  | cons a rest ih =>
    have first := t.action_number a ((actions_adds _ rest).keeps.1.trans kept)
    have others := ih (t.action a).1 kept
    rw [(t.action_adds a).count] at others
    rw [actions, UpdateAction.numberedAll, ← first, ← others]

theorem conditions_adds {children : List Condition}
    (each : ∀ c ∈ children, ∀ t : Aliases, t.Adds (t.condition c).1
      ((fitting c.subtrees).flatMap ownNames) ((fitting c.subtrees).flatMap ownOperands))
    (t : Aliases) :
    t.Adds (t.conditions children).1 ((fitting (subtreesOfAll children)).flatMap ownNames)
      ((fitting (subtreesOfAll children)).flatMap ownOperands) := by
  induction children generalizing t with
  | nil => exact .refl t
  | cons c rest ih =>
    obtain ⟨here, behind⟩ := List.forall_mem_cons.mp each
    have first := here t
    have fit := t.condition_ok_iff c
    rw [subtreesOfAll, conditions]
    split
    · -- The node that does not fit is in the first condition, so the others are not come to.
      rename_i u e failed
      rw [failed] at first fit
      have unfit : ¬∀ node ∈ c.subtrees, node.Fits := by simp [← fit]
      rw [fitting_append_of_unfit unfit]
      exact first
    · rename_i u aliased compiled
      rw [compiled] at first fit
      have fits := fit.mp ⟨aliased, rfl⟩
      rw [fitting_of_fits fits] at first
      rw [fitting_append_of_fits fits, List.flatMap_append, List.flatMap_append]
      exact first.trans (ih behind u)

/-- Also a compilation that stops has added what it came across, and nothing else. -/
theorem condition_adds (t : Aliases) (c : Condition) :
    t.Adds (t.condition c).1 ((fitting c.subtrees).flatMap ownNames)
      ((fitting c.subtrees).flatMap ownOperands) := by
  induction c using children_induction generalizing t with
  | comparison p operator operands =>
    rw [condition, checkOperandCount, subtrees, fitting_cons]
    by_cases fits : (ConditionTree.comparison p operator operands).Fits
    · rw [if_pos (fits_comparison_iff.mp fits), if_pos fits]
      have adds := (t.path_adds p).trans ((t.path p).1.operands_adds operands)
      simpa [fitting, ownNames, ownOperands] using adds
    · rw [if_neg (mt fits_comparison_iff.mpr fits), if_neg fits]
      exact .refl t
  | logical operator children ih =>
    rw [condition, checkConditionCount, subtrees, fitting_cons]
    by_cases fits : (ConditionTree.logical operator children).Fits
    · rw [if_pos (fits_logical_iff.mp fits), if_pos fits]
      exact conditions_adds ih t
    · rw [if_neg (mt fits_logical_iff.mpr fits), if_neg fits]
      exact .refl t

theorem conditions_number {children : List Condition}
    (each : ∀ c ∈ children, ∀ (t u : Aliases) aliased, t.condition c = (u, .ok aliased) →
      u.names <+: all → aliased = c.numbered all.idxOf t.values.length)
    {t : Aliases} (compiled : t.conditions children = (u, .ok cs)) (kept : u.names <+: all) :
    cs = numberedAll all.idxOf t.values.length children := by
  induction children generalizing t u cs with
  | nil =>
    cases compiled
    rfl
  | cons c rest ih =>
    obtain ⟨here, behind⟩ := List.forall_mem_cons.mp each
    rw [conditions] at compiled
    split at compiled
    · simp at compiled
    · rename_i v first compiledFirst
      obtain ⟨rfl, others⟩ := Prod.mk.inj compiled
      obtain ⟨cs, tail, rfl⟩ := map_eq_ok.mp others
      -- All operands of the first condition are counted, since it was compiled as a whole.
      have keptFirst : v.names <+: (v.conditions rest).1.names :=
        (conditions_adds (fun c _ t => condition_adds t c) v).keeps.1
      have adds := t.condition_adds c
      rw [fitting_of_fits ((t.condition_ok_iff c).mp ⟨first, by rw [compiledFirst]⟩),
        flatMap_ownOperands, compiledFirst] at adds
      rw [numberedAll, ← here t v first compiledFirst (keptFirst.trans kept), ← adds.count,
        ← ih behind (Prod.ext rfl tail) kept]

/-- What a condition is over aliases does not depend on what is compiled behind it. -/
theorem condition_number {t : Aliases} {c : Condition}
    (compiled : t.condition c = (u, .ok aliased)) (kept : u.names <+: all) :
    aliased = c.numbered all.idxOf t.values.length := by
  induction c using children_induction generalizing t u aliased with
  | comparison p operator operands =>
    rw [condition] at compiled
    split at compiled
    · simp at compiled
    · cases compiled
      have keptPath := ((t.path p).1.operands_adds operands).keeps.1.trans kept
      rw [numbered, t.path_number p keptPath, operands_number, (t.path_adds p).count]
      rfl
  | logical operator children ih =>
    rw [condition] at compiled
    split at compiled
    · simp at compiled
    · obtain ⟨rfl, all⟩ := Prod.mk.inj compiled
      obtain ⟨cs, parts, rfl⟩ := map_eq_ok.mp all
      rw [numbered, ← conditions_number (fun c member _ _ _ => ih c member) (Prod.ext rfl parts)
        kept]

end Aliases

end ItemSchema
