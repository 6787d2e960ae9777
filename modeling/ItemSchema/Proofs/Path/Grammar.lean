import ItemSchema.Path.Reader
import ItemSchema.Proofs.Except
import ItemSchema.Proofs.Numeral.Digits

/-! The texts of paths, told by their grammar: parts with dots between them, each a name with
bracketed indexes behind it or one bracketed index. Reading accepts exactly these. -/
namespace ItemSchema

theorem Text.splitOn_eq (separator : Char) (text : List Char) :
    splitOn separator text = text.splitOn separator := by
  induction text with
  | nil => rfl
  | cons c rest ih =>
    rw [splitOn, ih, List.splitOn_cons_eq_if_modifyHead]
    cases split : rest.splitOn separator with
    | nil => exact absurd split (List.splitOn_ne_nil separator rest)
    | cons part parts => simp

theorem Text.not_mem_splitOn {separator : Char} {text : List Char}
    (member : part ∈ splitOn separator text) : separator ∉ part := by
  induction text generalizing part with
  | nil =>
    rw [splitOn, List.mem_singleton] at member
    simp [member]
  | cons c rest ih =>
    rw [splitOn] at member
    split at member
    · rcases List.mem_cons.mp member with rfl | later
      · simp
      · exact ih later
    · rename_i other
      cases pieces : splitOn separator rest with
      | nil =>
        rw [pieces, List.mem_singleton] at member
        simpa [member] using Ne.symm other
      | cons first parts =>
        simp only [pieces] at member ih
        rcases List.mem_cons.mp member with rfl | later
        · simpa using ⟨Ne.symm other, ih List.mem_cons_self⟩
        · exact ih (List.mem_cons_of_mem _ later)

/-- Digits of a number that fits into 64 bits. -/
structure Numeral.IsIndex (row : List Char) (n : Nat) : Prop where
  nonempty : row ≠ []
  digits : ∀ c ∈ row, c.isDigit = true
  value : Nat.ofDigitChars 10 row 0 = n
  bound : n < 2 ^ 64

theorem Numeral.index?_eq_some_iff : index? row = some n ↔ IsIndex row n := by
  rw [index?, Option.filter_eq_some_iff, natural?]
  constructor
  · rintro ⟨read, bound⟩
    split at read
    · contradiction
    · rename_i digital
      simp only [Bool.or_eq_true, List.isEmpty_iff, Bool.not_eq_true', not_or] at digital
      refine ⟨digital.1, ?_, Option.some.inj read, by simpa using bound⟩
      simpa using digital.2
  · intro isIndex
    have read := natural?_of_isDigit isIndex.nonempty isIndex.digits
    rw [natural?] at read
    exact ⟨read.trans (congrArg some isIndex.value), by simpa using isIndex.bound⟩

theorem Numeral.digits_isIndex (bound : n < 2 ^ 64) : IsIndex (digits n) n :=
  ⟨digits_ne_nil n, fun _ => digits_isDigit, digits_value n, bound⟩

/-- Every digit of an index is one of those that are let through in brackets. -/
theorem Text.isDecimalDigit_of_isDigit {c : Char} (digit : c.isDigit = true) :
    isDecimalDigit c = true := by
  obtain ⟨lower, upper⟩ := Numeral.isDigit_bounds digit
  rw [isDecimalDigit, List.any_eq_true]
  refine ⟨0x30, List.mem_cons_self, ?_⟩
  simp only [Bool.and_eq_true, decide_eq_true_eq]
  omega

namespace Path

/-- The characters of the names that a text can spell. -/
def IsName (name : List Char) : Prop :=
  name ≠ [] ∧ ∀ c ∈ name, c ≠ '.' ∧ c ≠ '[' ∧ c ≠ ']' ∧ c ≠ '#' ∧ c ≠ ':'

def bracketed (row : List Char) : List Char :=
  '[' :: (row ++ [']'])

/-- What may stand between dots. -/
inductive IsPart : List Char → Path → Prop where
  | name (isName : IsName name) (indexes : List.Forall₂ Numeral.IsIndex rows ns) :
    IsPart (name ++ rows.flatMap bracketed) (.field (String.ofList name) :: ns.map .index)
  | index (isIndex : Numeral.IsIndex row n) : IsPart (bracketed row) [.index n]

/-- The texts that spell a path: one that starts with a field. -/
structure Spelling (text : String) (p : Path) : Prop where
  parts : ∃ rows paths, text.toList = ['.'].intercalate rows ∧ List.Forall₂ IsPart rows paths ∧
    p = paths.flatten
  starts : ∃ name, p.firstField? = some name
  notBlank : Text.isBlankText text = false

theorem isNameChar_iff {c : Char} :
    isNameChar c = true ↔ c ≠ '[' ∧ c ≠ ']' ∧ c ≠ '#' ∧ c ≠ ':' := by
  simp [isNameChar, and_assoc]

theorem bracketed_append (row rest : List Char) :
    bracketed row ++ rest = '[' :: (row ++ ']' :: rest) := by
  simp [bracketed]

/-- The open group stands in front of what is still to be read. -/
theorem eq_of_groups? {opened : Option (List Char)} {text : List Char}
    (read : groups? opened text = some rows) :
    (opened.elim [] fun row => '[' :: row) ++ text = rows.flatMap bracketed := by
  induction text generalizing opened rows with
  | nil =>
    cases opened with
    | none =>
      cases read
      rfl
    | some row => contradiction
  | cons c rest ih =>
    cases opened with
    | none =>
      rw [groups?] at read
      split at read
      · rename_i bracket
        subst bracket
        exact ih read
      · contradiction
    | some row =>
      rw [groups?] at read
      split at read
      · rw [← ih read]
        simp
      · split at read
        · rename_i closed
          obtain ⟨others, behind, rfl⟩ := Option.map_eq_some_iff.mp read
          simp only [Bool.and_eq_true, decide_eq_true_eq] at closed
          rw [List.flatMap_cons, ← ih behind, bracketed_append, closed.1]
          rfl
        · contradiction

theorem groups?_row {row : List Char} (digits : ∀ c ∈ row, c.isDigit = true)
    (front rest : List Char) (nonempty : front ++ row ≠ []) :
    groups? (some front) (row ++ ']' :: rest) = (groups? none rest).map ((front ++ row) :: ·) := by
  induction row generalizing front with
  | nil =>
    have opened : front ≠ [] := by simpa using nonempty
    have bracket : Text.isDecimalDigit ']' = false := by decide
    simp [groups?, bracket, opened]
  | cons c row ih =>
    obtain ⟨digit, others⟩ := List.forall_mem_cons.mp digits
    rw [List.cons_append, groups?, if_pos (Text.isDecimalDigit_of_isDigit digit),
      ih others (front ++ [c]) (by simp), List.append_assoc]
    rfl

theorem groups?_flatMap {rows : List (List Char)}
    (each : ∀ row ∈ rows, row ≠ [] ∧ ∀ c ∈ row, c.isDigit = true) :
    groups? none (rows.flatMap bracketed) = some rows := by
  induction rows with
  | nil => rfl
  | cons row rows ih =>
    obtain ⟨⟨nonempty, digits⟩, others⟩ := List.forall_mem_cons.mp each
    rw [List.flatMap_cons, bracketed_append, groups?, if_pos rfl,
      groups?_row digits [] _ (by simpa using nonempty), ih others]
    rfl

theorem index_ok_iff {text : String} {row : List Char} {s : Segment String} :
    index text row = .ok s ↔ ∃ n, Numeral.IsIndex row n ∧ s = .index n := by
  simp only [← Numeral.index?_eq_some_iff]
  rw [index]
  cases Numeral.index? row with
  | none => simp
  | some n => simp [eq_comm]

theorem indexes_ok_iff {text : String} {rows : List (List Char)} {p : Path} :
    rows.mapM (index text) = .ok p ↔
      ∃ ns, List.Forall₂ Numeral.IsIndex rows ns ∧ p = ns.map .index := by
  rw [mapM_eq_ok_iff_forall₂]
  simp only [index_ok_iff]
  constructor
  · intro each
    induction each with
    | nil => exact ⟨[], .nil, rfl⟩
    | cons first _ ih =>
      obtain ⟨n, isIndex, rfl⟩ := first
      obtain ⟨ns, others, rfl⟩ := ih
      exact ⟨n :: ns, .cons isIndex others, rfl⟩
  · rintro ⟨ns, indexes, rfl⟩
    rw [List.forall₂_map_right_iff]
    exact indexes.imp fun _ n isIndex => ⟨n, isIndex, rfl⟩

theorem forall₂_isIndex_rows (indexes : List.Forall₂ Numeral.IsIndex rows ns) :
    ∀ row ∈ rows, row ≠ [] ∧ ∀ c ∈ row, c.isDigit = true := by
  induction indexes with
  | nil => simp
  | cons isIndex _ ih => exact List.forall_mem_cons.mpr ⟨⟨isIndex.nonempty, isIndex.digits⟩, ih⟩

theorem part_of_isPart (text : String) (isPart : IsPart chars p) : part text chars = .ok p := by
  cases isPart with
  | @name name rows ns isName indexes =>
    have nameChars : ∀ c ∈ name, isNameChar c = true :=
      fun c member => isNameChar_iff.mpr (isName.2 c member).2
    have behind : (rows.flatMap bracketed).takeWhile isNameChar = [] ∧
        (rows.flatMap bracketed).dropWhile isNameChar = rows.flatMap bracketed := by
      cases rows with
      | nil => exact ⟨rfl, rfl⟩
      | cons row rows => exact ⟨rfl, rfl⟩
    have front : (name ++ rows.flatMap bracketed).takeWhile isNameChar = name := by
      rw [List.takeWhile_append_of_pos nameChars, behind.1, List.append_nil]
    have back : (name ++ rows.flatMap bracketed).dropWhile isNameChar = rows.flatMap bracketed := by
      rw [List.dropWhile_append_of_pos nameChars, behind.2]
    have read : rows.mapM (index text) = .ok (ns.map .index) :=
      indexes_ok_iff.mpr ⟨ns, indexes, rfl⟩
    simp [part, front, back, groups?_flatMap (forall₂_isIndex_rows indexes), isName.1, read]
  | @index row n isIndex =>
    have read : [row].mapM (index text) = .ok [.index n] :=
      indexes_ok_iff.mpr ⟨[n], .cons isIndex .nil, rfl⟩
    have front : (bracketed row).takeWhile isNameChar = [] := rfl
    have back : (bracketed row).dropWhile isNameChar = bracketed row := rfl
    have each : ∀ other ∈ [row], other ≠ [] ∧ ∀ c ∈ other, c.isDigit = true :=
      List.forall_mem_singleton.mpr ⟨isIndex.nonempty, isIndex.digits⟩
    have groups : groups? none (bracketed row) = some [row] := by
      simpa using groups?_flatMap each
    have nonempty : (bracketed row).isEmpty = false := rfl
    simp [part, nonempty, front, back, groups, read]

theorem isName_takeWhile {chars : List Char} (noDot : '.' ∉ chars)
    (named : chars.takeWhile isNameChar ≠ []) : IsName (chars.takeWhile isNameChar) := by
  refine ⟨named, fun c member => ⟨?_, ?_⟩⟩
  · rintro rfl
    exact noDot ((List.takeWhile_sublist isNameChar).subset member)
  · exact isNameChar_iff.mp (List.all_eq_true.mp List.all_takeWhile c member)

theorem isPart_of_part {text : String} (noDot : '.' ∉ chars) (read : part text chars = .ok p) :
    IsPart chars p := by
  have whole : chars.takeWhile isNameChar ++ chars.dropWhile isNameChar = chars :=
    List.takeWhile_append_dropWhile
  rw [part] at read
  split at read
  · contradiction
  · dsimp only at read
    split at read
    · contradiction
    · rename_i rows groups
      have back := eq_of_groups? groups
      rw [Option.elim_none, List.nil_append] at back
      split at read
      · rename_i named
        obtain ⟨_, digits, same⟩ := bind_eq_ok.mp read
        cases same
        obtain ⟨ns, indexes, rfl⟩ := indexes_ok_iff.mp digits
        have parts := IsPart.name (isName_takeWhile noDot (by simpa using named)) indexes
        rwa [← back, whole] at parts
      · rename_i nameless
        split at read
        · rename_i single
          obtain ⟨row, rfl⟩ := List.length_eq_one_iff.mp single
          obtain ⟨_, indexes, rfl⟩ := indexes_ok_iff.mp read
          obtain ⟨n, ns, isIndex, none, rfl⟩ := List.forall₂_cons_left_iff.mp indexes
          cases none
          have front : chars.takeWhile isNameChar = [] := by simpa using nameless
          rw [front, List.nil_append] at whole
          rw [← whole, back, List.flatMap_singleton]
          exact .index isIndex
        · contradiction

theorem IsPart.no_dot (isPart : IsPart chars p) : '.' ∉ chars := by
  have index : ∀ {row n}, Numeral.IsIndex row n → '.' ∉ bracketed row := by
    intro row n isIndex member
    simp only [bracketed, List.mem_cons, List.mem_append, List.not_mem_nil, or_false] at member
    rcases member with bracket | digit | bracket
    · contradiction
    · exact absurd (isIndex.digits _ digit) (by decide)
    · contradiction
  cases isPart with
  | @name name rows ns isName indexes =>
    rw [List.mem_append, not_or]
    refine ⟨fun member => (isName.2 _ member).1 rfl, ?_⟩
    induction indexes with
    | nil => simp
    | cons isIndex _ ih =>
      rw [List.flatMap_cons, List.mem_append, not_or]
      exact ⟨index isIndex, ih⟩
  | index isIndex => exact index isIndex

theorem parts_no_dot (parts : List.Forall₂ IsPart rows paths) : ∀ row ∈ rows, '.' ∉ row := by
  induction parts with
  | nil => simp
  | cons isPart _ ih => exact List.forall_mem_cons.mpr ⟨isPart.no_dot, ih⟩

theorem parts_ok_iff {text : String} {rows : List (List Char)} {paths : List Path}
    (noDot : ∀ row ∈ rows, '.' ∉ row) :
    rows.mapM (part text) = .ok paths ↔ List.Forall₂ IsPart rows paths := by
  rw [mapM_eq_ok_iff_forall₂]
  constructor
  · intro each
    induction each with
    | nil => exact .nil
    | cons read _ ih =>
      obtain ⟨here, others⟩ := List.forall_mem_cons.mp noDot
      exact .cons (isPart_of_part here read) (ih others)
  · exact fun parts => parts.imp fun _ _ => part_of_isPart text

theorem ofText_ok_iff {text : String} {p : Path} : ofText text = .ok p ↔ Spelling text p := by
  rw [ofText]
  constructor
  · intro read
    split at read
    · contradiction
    · rename_i notBlank
      obtain ⟨paths, parts, rest⟩ := bind_eq_ok.mp read
      dsimp only at rest
      split at rest
      · contradiction
      · rename_i named
        obtain rfl := Except.ok.inj rest
        have noDot := fun row (member : row ∈ Text.splitOn '.' text.toList) =>
          Text.not_mem_splitOn member
        refine ⟨⟨_, paths, ?_, (parts_ok_iff noDot).mp parts, rfl⟩, ?_, ?_⟩
        · rw [Text.splitOn_eq, List.intercalate_splitOn]
        · rwa [Option.isNone_iff_eq_none, ← Ne, Option.ne_none_iff_exists'] at named
        · exact Bool.eq_false_iff.mpr notBlank
  · rintro ⟨⟨rows, paths, whole, parts, rfl⟩, ⟨name, named⟩, notBlank⟩
    have noDot := parts_no_dot parts
    have nonempty : rows ≠ [] := by
      rintro rfl
      cases parts
      contradiction
    have read : rows.mapM (part text) = .ok paths := (parts_ok_iff noDot).mpr parts
    have pieces : Text.splitOn '.' text.toList = rows := by
      rw [Text.splitOn_eq, whole, List.splitOn_intercalate '.' noDot nonempty]
    simp [notBlank, pieces, read, named]

end Path

end ItemSchema
