/-! Texts as the bytes in which they are stored. The store compares texts byte by byte. -/
namespace ItemSchema

theorem UInt8.compare_toNat (x y : UInt8) : compare x y = compare x.toNat y.toNat := by
  simp only [compare, compareOfLessAndEq, UInt8.lt_iff_toNat_lt, ← UInt8.toNat_inj]

theorem compare_append [Ord α] {row other : List α} (sameLength : row.length = other.length)
    (rest more : List α) :
    compare (row ++ rest) (other ++ more) = (compare row other).then (compare rest more) := by
  induction row generalizing other with
  | nil =>
    obtain rfl := List.length_eq_zero_iff.mp sameLength.symm
    rfl
  | cons x row ih =>
    cases other with
    | nil => contradiction
    | cons y other =>
      rw [List.cons_append, List.cons_append, List.compare_cons_cons, List.compare_cons_cons,
        ih (Nat.succ.inj sameLength), Ordering.then_assoc]

namespace Text

def utf8 (text : String) : List UInt8 :=
  text.toUTF8.data.toList

/-- How the store orders texts. -/
def byteOrder (s t : String) : Ordering :=
  compare (utf8 s) (utf8 t)

theorem utf8_inj {s t : String} : utf8 s = utf8 t ↔ s = t := by
  rw [utf8, utf8, Array.toList_inj, ← ByteArray.ext_iff]
  exact String.toByteArray_inj

theorem byteOrder_eq_iff {s t : String} : byteOrder s t = .eq ↔ s = t := by
  rw [byteOrder, Std.LawfulEqCmp.compare_eq_iff_eq, utf8_inj]

/-- A character of seven bits is one byte. -/
theorem utf8_ofList (row : List Char) (ascii : ∀ c ∈ row, c.val ≤ 127) :
    utf8 (String.ofList row) = row.map Char.toUInt8 := by
  have one : ∀ c ∈ row, String.utf8EncodeChar c = [c.toUInt8] := fun c member =>
    String.utf8EncodeChar_eq_singleton (Char.utf8Size_eq_one_iff.mpr (ascii c member))
  have flat : row.flatMap String.utf8EncodeChar = row.map Char.toUInt8 := by
    rw [List.map_eq_flatMap, List.flatMap_def, List.flatMap_def, List.map_congr_left one]
  rw [← flat]
  simp [utf8, List.utf8Encode]

end Text

end ItemSchema
