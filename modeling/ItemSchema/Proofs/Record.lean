import ItemSchema.Record
import Mathlib.Data.List.Nodup

/-! Look-up in records after insertions, and the equality of records that answer every look-up
alike. -/
namespace ItemSchema.Record

/-- Names in ascending order, each once. -/
def Sorted (entries : List (String × α)) : Prop :=
  entries.Pairwise fun first second => first.1 < second.1

theorem find?_isSome_iff {entries : List (String × α)} :
    (find? name entries).isSome = true ↔ name ∈ entries.map Prod.fst := by
  induction entries with
  | nil => simp [find?]
  | cons entry rest ih =>
    obtain ⟨key, value⟩ := entry
    by_cases same : name = key
    · simp [find?, same]
    · simpa [find?, same] using ih

theorem find?_eq_none_iff {entries : List (String × α)} :
    find? name entries = none ↔ name ∉ entries.map Prod.fst := by
  rw [← find?_isSome_iff, Option.not_isSome_iff_eq_none]

theorem mem_of_find? {entries : List (String × α)} (found : find? name entries = some value) :
    (name, value) ∈ entries := by
  induction entries with
  | nil => simp [find?] at found
  | cons entry rest ih =>
    obtain ⟨key, first⟩ := entry
    by_cases same : name = key
    · simp [find?, same] at found
      simp [same, found]
    · simp only [find?, same, if_false] at found
      exact List.mem_cons_of_mem _ (ih found)

theorem find?_of_mem {entries : List (String × α)} (distinct : (entries.map Prod.fst).Nodup)
    (member : (name, value) ∈ entries) : find? name entries = some value := by
  induction entries with
  | nil => contradiction
  | cons entry rest ih =>
    obtain ⟨key, first⟩ := entry
    rw [List.map_cons, List.nodup_cons] at distinct
    rcases List.mem_cons.mp member with here | later
    · cases here
      simp [find?]
    · have other : name ≠ key := by
        rintro rfl
        exact distinct.1 (List.mem_map.mpr ⟨_, later, rfl⟩)
      rw [find?, if_neg other, ih distinct.2 later]

theorem find?_map (f : String → α → β) (entries : List (String × α)) (name : String) :
    find? name (entries.map fun entry => (entry.1, f entry.1 entry.2)) =
      (find? name entries).map (f name) := by
  induction entries with
  | nil => rfl
  | cons entry rest ih =>
    obtain ⟨key, value⟩ := entry
    by_cases same : name = key
    · simp [find?, same]
    · simpa [find?, same] using ih

theorem find?_append (front back : List (String × α)) (name : String) :
    find? name (front ++ back) = (find? name front).or (find? name back) := by
  induction front with
  | nil => simp [find?]
  | cons entry rest ih =>
    obtain ⟨key, value⟩ := entry
    by_cases same : name = key
    · simp [find?, same]
    · simpa [find?, same] using ih

theorem find?_insert (name key : String) (value : α) (entries : List (String × α)) :
    find? name (insert key value entries) =
      if name = key then some value else find? name entries := by
  induction entries with
  | nil => rfl
  | cons entry rest ih =>
    obtain ⟨first, old⟩ := entry
    by_cases replaced : key = first
    · subst replaced
      by_cases same : name = key <;> simp [insert, find?, same]
    · by_cases before : key < first
      · simp [insert, replaced, before, find?]
      · rw [insert, if_neg replaced, if_neg before, find?, ih, find?]
        by_cases same : name = key
        · simp [same, replaced]
        · simp [same]

theorem mem_insert {entry : String × α} {entries : List (String × α)}
    (member : entry ∈ insert key value entries) : entry = (key, value) ∨ entry ∈ entries := by
  induction entries with
  | nil => simpa [insert] using member
  | cons first rest ih =>
    obtain ⟨name, old⟩ := first
    simp only [insert] at member
    split at member
    · rcases List.mem_cons.mp member with here | later
      · exact .inl here
      · exact .inr (List.mem_cons_of_mem _ later)
    · split at member
      · exact List.mem_cons.mp member
      · rcases List.mem_cons.mp member with here | later
        · exact .inr (here ▸ List.mem_cons_self)
        · exact (ih later).imp id (List.mem_cons_of_mem _)

theorem insert_sorted {entries : List (String × α)} (sorted : Sorted entries) (key : String)
    (value : α) : Sorted (insert key value entries) := by
  induction entries with
  | nil => exact List.pairwise_singleton _ _
  | cons entry rest ih =>
    obtain ⟨name, old⟩ := entry
    obtain ⟨least, ordered⟩ := List.pairwise_cons.mp sorted
    simp only [insert]
    split
    · rename_i same
      subst same
      exact List.pairwise_cons.mpr ⟨least, ordered⟩
    · rename_i other
      split
      · rename_i before
        refine List.pairwise_cons.mpr ⟨?_, sorted⟩
        intro later member
        rcases List.mem_cons.mp member with rfl | member
        · exact before
        · exact Std.lt_trans before (least later member)
      · rename_i notBefore
        refine List.pairwise_cons.mpr ⟨?_, ih ordered⟩
        intro later member
        rcases mem_insert member with rfl | member
        · exact Std.lt_of_le_of_ne (Std.not_lt.mp notBefore) (Ne.symm other)
        · exact least later member

theorem foldl_insert_sorted {record : List (String × α)} (sorted : Sorted record)
    (entries : List (String × α)) :
    Sorted (entries.foldl (fun record (name, value) => insert name value record) record) := by
  induction entries generalizing record with
  | nil => exact sorted
  | cons entry rest ih => exact ih (insert_sorted sorted _ _)

theorem ofList_sorted (entries : List (String × α)) : Sorted (ofList entries) :=
  foldl_insert_sorted .nil entries

theorem mem_foldl_insert {entry : String × α} {entries record : List (String × α)}
    (member : entry ∈
      entries.foldl (fun record (name, value) => insert name value record) record) :
    entry ∈ entries ∨ entry ∈ record := by
  induction entries generalizing record with
  | nil => exact .inr member
  | cons first rest ih =>
    rcases ih member with later | inserted
    · exact .inl (List.mem_cons_of_mem _ later)
    · rcases mem_insert inserted with rfl | before
      · exact .inl List.mem_cons_self
      · exact .inr before

theorem mem_ofList {entry : String × α} {entries : List (String × α)}
    (member : entry ∈ ofList entries) : entry ∈ entries :=
  (mem_foldl_insert member).resolve_right List.not_mem_nil

theorem find?_foldl_insert (entries record : List (String × α)) (name : String) :
    find? name (entries.foldl (fun record (name, value) => insert name value record) record) =
      (find? name entries.reverse).or (find? name record) := by
  induction entries generalizing record with
  | nil => simp [find?]
  | cons entry rest ih =>
    obtain ⟨key, value⟩ := entry
    rw [List.foldl_cons, ih, find?_insert, List.reverse_cons, find?_append, Option.or_assoc]
    by_cases same : name = key <;> simp [same, find?]

theorem find?_reverse {entries : List (String × α)} (distinct : (entries.map Prod.fst).Nodup)
    (name : String) : find? name entries.reverse = find? name entries := by
  have reversed : (entries.reverse.map Prod.fst).Nodup := by
    rw [List.map_reverse]
    exact List.nodup_reverse.mpr distinct
  cases found : find? name entries with
  | none =>
    rw [find?_eq_none_iff] at found ⊢
    simpa using found
  | some value => exact find?_of_mem reversed (List.mem_reverse.mpr (mem_of_find? found))

theorem find?_ofList {entries : List (String × α)} (distinct : (entries.map Prod.fst).Nodup)
    (name : String) : find? name (ofList entries) = find? name entries := by
  rw [ofList, find?_foldl_insert, find?_reverse distinct, find?, Option.or_none]

theorem Sorted.distinct {entries : List (String × α)} (sorted : Sorted entries) :
    (entries.map Prod.fst).Nodup := by
  rw [List.Nodup, List.pairwise_map]
  refine List.Pairwise.imp (fun {first second} before same => ?_) sorted
  rw [same] at before
  exact Std.lt_irrefl before

theorem ofList_perm {entries : List (String × α)} (distinct : (entries.map Prod.fst).Nodup) :
    (ofList entries).Perm entries := by
  refine (List.perm_ext_iff_of_nodup (ofList_sorted entries).distinct.of_map
    distinct.of_map).mpr fun entry => ⟨mem_ofList, fun member => ?_⟩
  have found : find? entry.1 (ofList entries) = some entry.2 := by
    rw [find?_ofList distinct, find?_of_mem distinct member]
  exact mem_of_find? found

/-- Records are equal if they have the same value at every name. -/
theorem Sorted.ext {left right : List (String × α)} (sortedLeft : Sorted left)
    (sortedRight : Sorted right) (same : ∀ name, find? name left = find? name right) :
    left = right := by
  induction left generalizing right with
  | nil =>
    cases right with
    | nil => rfl
    | cons entry rest => simpa [find?] using same entry.1
  | cons entry rest ih =>
    cases right with
    | nil => simpa [find?] using same entry.1
    | cons other others =>
      obtain ⟨leastLeft, sortedRest⟩ := List.pairwise_cons.mp sortedLeft
      obtain ⟨leastRight, sortedOthers⟩ := List.pairwise_cons.mp sortedRight
      have absent : ∀ {key : String} {entries : List (String × α)},
          (∀ later ∈ entries, key < later.1) → find? key entries = none := by
        intro key entries least
        rw [find?_eq_none_iff]
        intro member
        obtain ⟨later, member, here⟩ := List.mem_map.mp member
        exact Std.lt_irrefl (here ▸ least later member)
      obtain ⟨key, value⟩ := entry
      obtain ⟨key', value'⟩ := other
      have keys : key = key' := by
        by_contra different
        have left := same key
        have right := same key'
        rw [find?, if_pos rfl, find?, if_neg different] at left
        rw [find?, if_neg (Ne.symm different), find?, if_pos rfl] at right
        have after := leastRight _ (mem_of_find? left.symm)
        have before := leastLeft _ (mem_of_find? right)
        exact Std.lt_irrefl (Std.lt_trans after before)
      subst keys
      have values : value = value' := by
        simpa [find?] using same key
      subst values
      rw [ih sortedRest sortedOthers fun name => ?_]
      by_cases here : name = key
      · rw [here, absent leastLeft, absent leastRight]
      · simpa [find?, here] using same name

theorem Sorted.ofList_eq {entries : List (String × α)} (sorted : Sorted entries) :
    ofList entries = entries :=
  Sorted.ext (ofList_sorted entries) sorted (find?_ofList sorted.distinct)

theorem Sorted.map {entries : List (String × α)} (sorted : Sorted entries) (f : String → α → β) :
    Sorted (entries.map fun entry => (entry.1, f entry.1 entry.2)) := by
  rw [Sorted, List.pairwise_map]
  exact sorted

theorem Sorted.of_names {entries : List (String × α)} {others : List (String × β)}
    (sorted : Sorted entries) (same : others.map Prod.fst = entries.map Prod.fst) :
    Sorted others := by
  rw [Sorted, ← List.pairwise_map, same, List.pairwise_map]
  exact sorted

/-- The entries with smaller names stand in front. -/
theorem Sorted.mem_front {front back : List (String × α)}
    (sorted : Sorted (front ++ (name, value) :: back))
    (found : find? key (front ++ (name, value) :: back) = some x) (less : key < name) :
    (key, x) ∈ front := by
  obtain ⟨_, behind, _⟩ := List.pairwise_append.mp sorted
  rcases List.mem_append.mp (mem_of_find? found) with front | back
  · exact front
  · rcases List.mem_cons.mp back with here | later
    · cases here
      exact absurd less Std.lt_irrefl
    · have more := (List.pairwise_cons.mp behind).1 _ later
      exact absurd (Std.lt_trans less more) Std.lt_irrefl

/-- Some of the entries, each with another value. -/
def select (f : String → α → Option β) (entries : List (String × α)) : List (String × β) :=
  entries.filterMap fun (name, value) => (f name value).map fun v => (name, v)

theorem select_names (f : String → α → Option β) (entries : List (String × α)) :
    ((select f entries).map Prod.fst).Sublist (entries.map Prod.fst) := by
  induction entries with
  | nil => exact .slnil
  | cons entry rest ih =>
    obtain ⟨name, value⟩ := entry
    cases chosen : f name value with
    | none => simpa [select, chosen] using ih.cons name
    | some v => simpa [select, chosen] using ih.cons_cons name

theorem select_distinct (f : String → α → Option β) {entries : List (String × α)}
    (distinct : (entries.map Prod.fst).Nodup) : ((select f entries).map Prod.fst).Nodup :=
  distinct.sublist (select_names f entries)

theorem find?_select (f : String → α → Option β) {entries : List (String × α)}
    (distinct : (entries.map Prod.fst).Nodup) (name : String) :
    find? name (select f entries) = (find? name entries).bind (f name) := by
  induction entries with
  | nil => rfl
  | cons entry rest ih =>
    obtain ⟨key, value⟩ := entry
    rw [List.map_cons, List.nodup_cons] at distinct
    have later : find? key (select f rest) = none := by
      rw [find?_eq_none_iff]
      exact fun member => distinct.1 ((select_names f rest).subset member)
    have rest := ih distinct.2
    by_cases same : name = key
    · subst same
      cases chosen : f name value with
      | none => simpa [select, chosen, find?] using later
      | some v => simp [select, chosen, find?]
    · cases chosen : f key value with
      | none => simpa [select, chosen, find?, same] using rest
      | some v => simpa [select, chosen, find?, same] using rest

theorem filter_eq_select (keep : String → α → Bool) (entries : List (String × α)) :
    entries.filter (fun entry => keep entry.1 entry.2) =
      select (fun name value => if keep name value then some value else none) entries := by
  rw [select, ← List.filterMap_eq_filter]
  congr 1
  funext entry
  cases kept : keep entry.1 entry.2 <;> simp [Option.guard, kept]

theorem find?_filter (keep : String → α → Bool) {entries : List (String × α)}
    (distinct : (entries.map Prod.fst).Nodup) (name : String) :
    find? name (entries.filter fun entry => keep entry.1 entry.2) =
      (find? name entries).filter (keep name) := by
  rw [filter_eq_select, find?_select _ distinct]
  cases find? name entries <;> rfl

theorem find?_ofList_select (f : String → α → Option β) {entries : List (String × α)}
    (distinct : (entries.map Prod.fst).Nodup) (name : String) :
    find? name (ofList (select f entries)) = (find? name entries).bind (f name) := by
  rw [find?_ofList (select_distinct f distinct), find?_select f distinct]

end ItemSchema.Record
