import ItemSchema.Codec.Encoding
import Mathlib.Data.List.Forall2
import Mathlib.Data.List.Nodup

/-! Elements of a row that differ in a key: of those with one key the first is kept, where it
stands. -/
namespace ItemSchema

/-- At a place of a row stands an element that is the same as none in front of it. -/
def FirstAt (same : α → α → Bool) (given : List α) (i : Nat) (x : α) : Prop :=
  given[i]? = some x ∧ ∀ y ∈ given.take i, same y x = false

/-- A row without repetitions: of the elements that are the same the first is left in its place. -/
structure KeepsFirst (same : α → α → Bool) (given kept : List α) : Prop where
  inOrder : ∃ places : List Nat, places.Pairwise (· < ·) ∧
    List.Forall₂ (FirstAt same given) places kept ∧ ∀ i x, FirstAt same given i x → i ∈ places
  apart : kept.Pairwise fun x y => same x y = false
  once : ∀ x ∈ given, kept.countP (fun y => same y x) = 1

section

variable {α κ : Type} {key : α → κ} {seen : List κ} {xs : List α}

/-- At a place of a row stands an element with a key that was neither seen before nor in front. -/
def NewAt (key : α → κ) (seen : List κ) (xs : List α) (i : Nat) (x : α) : Prop :=
  xs[i]? = some x ∧ key x ∉ seen ∧ ∀ y ∈ xs.take i, key y ≠ key x

theorem newAt_zero : NewAt key seen (first :: rest) 0 x ↔ x = first ∧ key first ∉ seen := by
  simp only [NewAt, List.getElem?_cons_zero, Option.some.injEq, List.take_zero]
  constructor
  · rintro ⟨rfl, unseen, _⟩
    exact ⟨rfl, unseen⟩
  · rintro ⟨rfl, unseen⟩
    exact ⟨rfl, unseen, by simp⟩

theorem newAt_succ :
    NewAt key seen (first :: rest) (i + 1) x ↔ NewAt key (key first :: seen) rest i x := by
  rw [NewAt, NewAt, List.getElem?_cons_succ, List.take_succ_cons, List.forall_mem_cons,
    List.mem_cons, not_or]
  constructor
  · rintro ⟨here, unseen, other, new⟩
    exact ⟨here, ⟨Ne.symm other, unseen⟩, new⟩
  · rintro ⟨here, ⟨other, unseen⟩, new⟩
    exact ⟨here, unseen, Ne.symm other, new⟩

/-- A key that is seen once more makes no difference. -/
theorem newAt_seen (known : k ∈ seen) : NewAt key (k :: seen) xs i x ↔ NewAt key seen xs i x := by
  have same : key x ∉ k :: seen ↔ key x ∉ seen := by
    rw [List.mem_cons, not_or]
    constructor
    · exact And.right
    · refine fun unseen => ⟨?_, unseen⟩
      rintro rfl
      exact unseen known
  rw [NewAt, NewAt, same]

variable [DecidableEq κ]

theorem mem_of_mem_distinctBy (member : x ∈ distinctBy key seen xs) : x ∈ xs ∧ key x ∉ seen := by
  induction xs generalizing seen with
  | nil => contradiction
  | cons y rest ih =>
    rw [distinctBy] at member
    split at member
    · exact (ih member).imp (List.mem_cons_of_mem _) id
    · rename_i new
      rcases List.mem_cons.mp member with rfl | later
      · exact ⟨List.mem_cons_self, new⟩
      · obtain ⟨inside, unseen⟩ := ih later
        exact ⟨List.mem_cons_of_mem _ inside, fun known => unseen (List.mem_cons_of_mem _ known)⟩

/-- Every key that was not seen before is kept. -/
theorem exists_mem_distinctBy (key : α → κ) (member : x ∈ xs) (unseen : key x ∉ seen) :
    ∃ y ∈ distinctBy key seen xs, key y = key x := by
  induction xs generalizing seen with
  | nil => contradiction
  | cons first rest ih =>
    rw [distinctBy]
    split
    · rename_i known
      rcases List.mem_cons.mp member with rfl | later
      · contradiction
      · exact ih later unseen
    · by_cases same : key first = key x
      · exact ⟨first, List.mem_cons_self, same⟩
      · rcases List.mem_cons.mp member with rfl | later
        · contradiction
        · have unseen : key x ∉ key first :: seen := by simp [unseen, Ne.symm same]
          obtain ⟨y, kept, same⟩ := ih later unseen
          exact ⟨y, List.mem_cons_of_mem _ kept, same⟩

theorem distinctBy_nodup (key : α → κ) (seen : List κ) (xs : List α) :
    ((distinctBy key seen xs).map key).Nodup := by
  induction xs generalizing seen with
  | nil => exact List.nodup_nil
  | cons x rest ih =>
    rw [distinctBy]
    split
    · exact ih seen
    · refine List.nodup_cons.mpr ⟨fun again => ?_, ih (key x :: seen)⟩
      obtain ⟨y, kept, same⟩ := List.mem_map.mp again
      exact (mem_of_mem_distinctBy kept).2 (same ▸ List.mem_cons_self)

theorem distinctBy_ne_nil (nonempty : xs ≠ []) : distinctBy key [] xs ≠ [] := by
  obtain ⟨x, member⟩ := List.exists_mem_of_ne_nil xs nonempty
  obtain ⟨y, kept, _⟩ := exists_mem_distinctBy key member List.not_mem_nil
  exact List.ne_nil_of_mem kept

/-- Nothing is dropped where no key repeats. -/
theorem distinctBy_eq_self (nodup : (xs.map key).Nodup) (unseen : ∀ x ∈ xs, key x ∉ seen) :
    distinctBy key seen xs = xs := by
  induction xs generalizing seen with
  | nil => rfl
  | cons x rest ih =>
    rw [List.map_cons, List.nodup_cons] at nodup
    obtain ⟨here, later⟩ := List.forall_mem_cons.mp unseen
    rw [distinctBy, if_neg here, ih nodup.2]
    intro y member
    rw [List.mem_cons, not_or]
    refine ⟨fun same => nodup.1 ?_, later y member⟩
    exact same ▸ List.mem_map_of_mem member

/-- Keys that tell the same elements apart keep the same elements. -/
theorem distinctBy_map {β μ : Type} [DecidableEq μ] (f : α → β) (other : β → μ)
    (same : ∀ x y, other (f x) = other (f y) ↔ key x = key y) (before : List α) :
    distinctBy other (before.map fun x => other (f x)) (xs.map f) =
      (distinctBy key (before.map key) xs).map f := by
  induction xs generalizing before with
  | nil => rfl
  | cons x rest ih =>
    have known : other (f x) ∈ (before.map fun x => other (f x)) ↔ key x ∈ before.map key := by
      simp only [List.mem_map, same]
    rw [List.map_cons, distinctBy, distinctBy]
    by_cases here : key x ∈ before.map key
    · rw [if_pos (known.mpr here), if_pos here, ih]
    · rw [if_neg (known.not.mpr here), if_neg here, List.map_cons, ← List.map_cons (f := key),
        ← ih (x :: before), List.map_cons]

/-- What is kept stands at the places of the new keys, in their order. -/
theorem distinctBy_places (key : α → κ) (seen : List κ) (xs : List α) :
    ∃ places : List Nat, places.Pairwise (· < ·) ∧
      List.Forall₂ (NewAt key seen xs) places (distinctBy key seen xs) ∧
      ∀ i x, NewAt key seen xs i x → i ∈ places := by
  have ascending : ∀ {places : List Nat}, places.Pairwise (· < ·) →
      (places.map (· + 1)).Pairwise (· < ·) :=
    fun sorted => List.pairwise_map.mpr (sorted.imp Nat.succ_lt_succ)
  induction xs generalizing seen with
  | nil => exact ⟨[], .nil, .nil, by simp [NewAt]⟩
  | cons first rest ih =>
    rw [distinctBy]
    split
    · rename_i known
      obtain ⟨places, sorted, each, all⟩ := ih seen
      have shifted : ∀ {i x}, NewAt key seen (first :: rest) (i + 1) x ↔ NewAt key seen rest i x :=
        newAt_succ.trans (newAt_seen known)
      refine ⟨places.map (· + 1), ascending sorted, ?_, ?_⟩
      · rw [List.forall₂_map_left_iff]
        exact each.imp fun _ _ new => shifted.mpr new
      · intro i x new
        cases i with
        | zero => exact absurd known (newAt_zero.mp new).2
        | succ i => exact List.mem_map_of_mem (all i x (shifted.mp new))
    · rename_i unseen
      obtain ⟨places, sorted, each, all⟩ := ih (key first :: seen)
      refine ⟨0 :: places.map (· + 1), List.pairwise_cons.mpr ⟨by simp, ascending sorted⟩, ?_, ?_⟩
      · refine .cons (newAt_zero.mpr ⟨rfl, unseen⟩) ?_
        rw [List.forall₂_map_left_iff]
        exact each.imp fun _ _ new => newAt_succ.mpr new
      · intro i x new
        cases i with
        | zero => exact List.mem_cons_self
        | succ i =>
          exact List.mem_cons_of_mem _ (List.mem_map_of_mem (all i x (newAt_succ.mp new)))

theorem newAt_nil : NewAt key [] xs i x ↔
    FirstAt (fun x y => decide (key x = key y)) xs i x := by
  simp [NewAt, FirstAt]

theorem distinctBy_keepsFirst (key : α → κ) (xs : List α) :
    KeepsFirst (fun x y => decide (key x = key y)) xs (distinctBy key [] xs) where
  inOrder := by
    obtain ⟨places, ascending, each, all⟩ := distinctBy_places key [] xs
    exact ⟨places, ascending, each.imp fun _ _ => newAt_nil.mp,
      fun i x first => all i x (newAt_nil.mpr first)⟩
  apart := by
    simpa using List.pairwise_map.mp (distinctBy_nodup key [] xs)
  once x member := by
    have one := List.count_eq_one_of_mem (distinctBy_nodup key [] xs)
      (a := key x) (by simpa using exists_mem_distinctBy key member List.not_mem_nil)
    rw [List.count, List.countP_map] at one
    exact one

end

section

variable {α β : Type} {same : α → α → Bool} {other : β → β → Bool} {given kept : List α}

theorem KeepsFirst.mem (keeps : KeepsFirst same given kept) (member : x ∈ kept) : x ∈ given := by
  obtain ⟨places, -, each, -⟩ := keeps.inOrder
  clear keeps
  induction each with
  | nil => contradiction
  | cons first _ ih =>
    rcases List.mem_cons.mp member with rfl | later
    · exact List.mem_of_getElem? first.1
    · exact ih later

theorem KeepsFirst.ne_nil (keeps : KeepsFirst same given kept) (nonempty : given ≠ []) :
    kept ≠ [] := by
  obtain ⟨x, member⟩ := List.exists_mem_of_ne_nil given nonempty
  rintro rfl
  have once := keeps.once x member
  contradiction

theorem FirstAt.map (f : α → β) (alike : ∀ x y, other (f x) (f y) = same x y) :
    FirstAt other (given.map f) i z ↔ ∃ x, FirstAt same given i x ∧ f x = z := by
  simp only [FirstAt, List.getElem?_map, Option.map_eq_some_iff, ← List.map_take,
    List.forall_mem_map]
  constructor
  · rintro ⟨⟨x, here, rfl⟩, first⟩
    exact ⟨x, ⟨here, fun y inside => (alike y x).symm.trans (first y inside)⟩, rfl⟩
  · rintro ⟨x, ⟨here, first⟩, rfl⟩
    exact ⟨⟨x, here, rfl⟩, fun y inside => (alike y x).trans (first y inside)⟩

theorem KeepsFirst.map (keeps : KeepsFirst same given kept) (f : α → β)
    (alike : ∀ x y, other (f x) (f y) = same x y) :
    KeepsFirst other (given.map f) (kept.map f) where
  inOrder := by
    obtain ⟨places, ascending, each, all⟩ := keeps.inOrder
    refine ⟨places, ascending, ?_, ?_⟩
    · rw [List.forall₂_map_right_iff]
      exact each.imp fun i x first => (FirstAt.map f alike).mpr ⟨x, first, rfl⟩
    · intro i z first
      obtain ⟨x, first, _⟩ := (FirstAt.map f alike).mp first
      exact all i x first
  apart := List.pairwise_map.mpr (keeps.apart.imp fun apart => (alike _ _).trans apart)
  once := by
    rw [List.forall_mem_map]
    intro x member
    rw [List.countP_map]
    simpa [Function.comp_def, alike] using keeps.once x member

end

end ItemSchema
