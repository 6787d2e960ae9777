import ItemSchema.Proofs.Expression.Alias
import ItemSchema.Proofs.Expression.Spelling

/-! Tables of aliases: under each alias there is what was allocated at its count, and nothing
else. -/
namespace ItemSchema

namespace Record

theorem keys_mapIdx (key : Nat → String) (xs : List α) :
    (xs.mapIdx fun i x => (key i, x)).map Prod.fst = (List.range xs.length).map key := by
  rw [List.mapIdx_eq_zipIdx_map, List.range_eq_range', ← List.zipIdx_map_snd, List.map_map,
    List.map_map]
  rfl

theorem values_mapIdx (key : Nat → String) (xs : List α) :
    (xs.mapIdx fun i x => (key i, x)).map Prod.snd = xs := by
  rw [List.mapIdx_eq_zipIdx_map, List.map_map]
  exact List.zipIdx_map_fst 0 xs

section

variable {key : Nat → String} (distinct : ∀ {i j}, key i = key j → i = j)

include distinct

theorem keys_mapIdx_nodup (xs : List α) :
    ((xs.mapIdx fun i x => (key i, x)).map Prod.fst).Nodup := by
  rw [keys_mapIdx]
  exact List.Nodup.map (fun _ _ => distinct) List.nodup_range

/-- Entries whose keys only count them are found by their positions. -/
theorem find?_mapIdx (xs : List α) (i : Nat) :
    find? (key i) (ofList (xs.mapIdx fun i x => (key i, x))) = xs[i]? := by
  rw [find?_ofList (keys_mapIdx_nodup distinct xs)]
  cases found : xs[i]? with
  | none =>
    rw [find?_eq_none_iff, keys_mapIdx]
    intro member
    obtain ⟨j, bound, same⟩ := List.mem_map.mp member
    rw [distinct same, List.mem_range] at bound
    exact Nat.not_le.mpr bound (List.getElem?_eq_none_iff.mp found)
  | some x =>
    obtain ⟨bound, here⟩ := List.getElem?_eq_some_iff.mp found
    exact find?_of_mem (keys_mapIdx_nodup distinct xs)
      (List.mem_mapIdx.mpr ⟨i, bound, by rw [here]⟩)

theorem mem_keys_mapIdx (xs : List α) (name : String) :
    name ∈ (ofList (xs.mapIdx fun i x => (key i, x))).map Prod.fst ↔
      ∃ i < xs.length, key i = name := by
  rw [((ofList_perm (keys_mapIdx_nodup distinct xs)).map Prod.fst).mem_iff, keys_mapIdx,
    List.mem_map]
  simp only [List.mem_range]

theorem values_mapIdx_nodup {xs : List α} (nodup : xs.Nodup) :
    ((ofList (xs.mapIdx fun i x => (key i, x))).map Prod.snd).Nodup := by
  rw [((ofList_perm (keys_mapIdx_nodup distinct xs)).map Prod.snd).nodup_iff, values_mapIdx]
  exact nodup

end

end Record

namespace AliasStems

theorem counted_injective {stem : String} (same : stem ++ String.ofList (Numeral.digits i) =
    stem ++ String.ofList (Numeral.digits j)) : i = j := by
  have texts := congrArg String.toList same
  rw [String.toList_append, String.toList_append] at texts
  have rows := List.append_cancel_left texts
  rw [String.toList_ofList, String.toList_ofList] at rows
  exact Numeral.digits_injective rows

theorem nameAlias_injective {stems : AliasStems} (same : stems.nameAlias i = stems.nameAlias j) :
    i = j :=
  counted_injective same

theorem valueAlias_injective {stems : AliasStems} (same : stems.valueAlias i = stems.valueAlias j) :
    i = j :=
  counted_injective same

end AliasStems

namespace Aliases

theorem find?_nameAlias (t : Aliases) (stems : AliasStems) (i : Nat) :
    Record.find? (stems.nameAlias i) (t.tables stems).names = t.names[i]? :=
  Record.find?_mapIdx AliasStems.nameAlias_injective t.names i

theorem find?_valueAlias (t : Aliases) (stems : AliasStems) (i : Nat) :
    Record.find? (stems.valueAlias i) (t.tables stems).values = t.values[i]? :=
  Record.find?_mapIdx AliasStems.valueAlias_injective t.values i

end Aliases

end ItemSchema
