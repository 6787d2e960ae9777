import ItemSchema.Json

/-! How many arrays and objects of a tree stand in one another. The limit on it leaves a tree as it
is or puts a fault into it, so it never takes one sound tree for another. -/
namespace ItemSchema.Json

mutual

def depth : Json → Nat
  | .array items => itemsDepth items + 1
  | .object members _ => membersDepth members + 1
  | _ => 0

def itemsDepth : List Json → Nat
  | [] => 0
  | item :: rest => max item.depth (itemsDepth rest)

def membersDepth : List (String × Json) → Nat
  | [] => 0
  | (_, value) :: rest => max value.depth (membersDepth rest)

end

theorem itemsDepth_le_iff {items : List Json} :
    itemsDepth items ≤ bound ↔ ∀ item ∈ items, item.depth ≤ bound := by
  induction items with
  | nil => simp [itemsDepth]
  | cons item rest ih => rw [itemsDepth, Nat.max_le, ih, List.forall_mem_cons]

theorem membersDepth_le_iff {members : List (String × Json)} :
    membersDepth members ≤ bound ↔ ∀ member ∈ members, member.2.depth ≤ bound := by
  induction members with
  | nil => simp [membersDepth]
  | cons member rest ih => rw [membersDepth, Nat.max_le, ih, List.forall_mem_cons]

theorem depth_le_itemsDepth {items : List Json} (member : item ∈ items) :
    item.depth ≤ itemsDepth items :=
  itemsDepth_le_iff.mp (Nat.le_refl _) item member

theorem depth_le_membersDepth {members : List (String × Json)} (member : (name, value) ∈ members) :
    value.depth ≤ membersDepth members :=
  membersDepth_le_iff.mp (Nat.le_refl _) (name, value) member

theorem itemsFaultsIn_iff {items : List Json} :
    itemsFaultsIn allowed items = true ↔ ∀ item ∈ items, item.faultsIn allowed = true := by
  induction items with
  | nil => simp [itemsFaultsIn]
  | cons item rest ih => rw [itemsFaultsIn, Bool.and_eq_true, ih, List.forall_mem_cons]

theorem membersFaultsIn_iff {members : List (String × Json)} :
    membersFaultsIn allowed members = true ↔
      ∀ member ∈ members, member.2.faultsIn allowed = true := by
  induction members with
  | nil => simp [membersFaultsIn]
  | cons member rest ih => rw [membersFaultsIn, Bool.and_eq_true, ih, List.forall_mem_cons]

theorem limitItems_eq_map (bound : Nat) (items : List Json) :
    limitItems bound items = items.map (limit bound) := by
  induction items with
  | nil => rfl
  | cons item rest ih => rw [limitItems, ih, List.map_cons]

theorem limitMembers_eq_map (bound : Nat) (members : List (String × Json)) :
    limitMembers bound members = members.map fun member => (member.1, member.2.limit bound) := by
  induction members with
  | nil => rfl
  | cons member rest ih => rw [limitMembers, ih, List.map_cons]

@[simp] theorem intact_array (items : List Json) :
    (array items).intact = true ↔ ∀ item ∈ items, item.intact = true := by
  rw [intact, faultsIn, itemsFaultsIn_iff]
  rfl

@[simp] theorem intact_object (members : List (String × Json)) (fault : Option Fault) :
    (object members fault).intact = true ↔
      (∀ member ∈ members, member.2.intact = true) ∧ fault = none := by
  rw [intact, faultsIn, Bool.and_eq_true, membersFaultsIn_iff]
  cases fault <;> simp [intact]

theorem limit_of_depth_le (within : depth j ≤ bound) : limit bound j = j := by
  induction bound generalizing j with
  | zero =>
    cases j with
    | array | object => contradiction
    | _ => rfl
  | succ bound ih =>
    cases j with
    | array items =>
      have each := itemsDepth_le_iff.mp (Nat.le_of_succ_le_succ within)
      rw [limit, limitItems_eq_map, List.map_congr_left fun item member => ih (each item member),
        List.map_id']
    | object members fault =>
      have each := membersDepth_le_iff.mp (Nat.le_of_succ_le_succ within)
      have same : ∀ member ∈ members, (member.1, member.2.limit bound) = member := by
        intro member here
        rw [ih (each member here)]
      rw [limit, limitMembers_eq_map, List.map_congr_left same, List.map_id']
    | _ => rfl

theorem depth_le_of_intact_limit (sound : (limit bound j).intact = true) : depth j ≤ bound := by
  induction bound generalizing j with
  | zero =>
    cases j with
    | array items => simp [limit, tooDeep, intact, faultsIn, itemsFaultsIn] at sound
    | object members fault => simp [limit, tooDeep] at sound
    | _ => exact Nat.le_refl 0
  | succ bound ih =>
    cases j with
    | array items =>
      rw [limit, limitItems_eq_map, intact_array] at sound
      apply Nat.succ_le_succ
      rw [itemsDepth_le_iff]
      intro item member
      exact ih (sound _ (List.mem_map_of_mem member))
    | object members fault =>
      rw [limit, limitMembers_eq_map, intact_object] at sound
      apply Nat.succ_le_succ
      rw [membersDepth_le_iff]
      intro entry member
      exact ih (sound.1 _ (List.mem_map_of_mem member))
    | _ => exact Nat.zero_le _

end ItemSchema.Json
