import ItemSchema.Proofs.Path.Grammar
import ItemSchema.Schema.Resolution

/-! Reading undoes writing on paths. A text may spell an index with zeros in front or behind a dot,
but what was read from it has one written form, from which it is read again. -/
namespace ItemSchema

namespace Path

/-- Paths that a text can spell. An index has 64 bits. -/
structure Plain (p : Path) : Prop where
  starts : ∃ name, p.firstField? = some name
  names : ∀ name, .field name ∈ p → IsName name.toList
  indexes : ∀ n, .index n ∈ p → n < 2 ^ 64
  notBlank : Text.isBlankText p.toText = false

theorem indexText_toList (n : Nat) : (indexText n).toList = bracketed (Numeral.digits n) := by
  simp [indexText, bracketed]

/-- Segments behind a name go on with its part up to the next field, with which a new one starts. -/
theorem exists_parts (isName : IsName name) (rows : List.Forall₂ Numeral.IsIndex digits ns)
    {rest : Path} (names : ∀ name, .field name ∈ rest → IsName name.toList)
    (indexes : ∀ n, .index n ∈ rest → n < 2 ^ 64) :
    ∃ parts paths, name ++ digits.flatMap bracketed ++
        (String.join (rest.map (Segment.joinedText id))).toList = ['.'].intercalate parts ∧
      List.Forall₂ IsPart parts paths ∧
        paths.flatten = .field (String.ofList name) :: (ns.map .index ++ rest) := by
  have here := IsPart.name isName rows
  induction rest generalizing name digits ns with
  | nil => exact ⟨_, _, by simp, .cons here .nil, by simp⟩
  | cons segment rest ih =>
    have laterNames := fun other member => names other (List.mem_cons_of_mem segment member)
    have laterIndexes := fun n member => indexes n (List.mem_cons_of_mem segment member)
    cases segment with
    | index n =>
      have isIndex := Numeral.digits_isIndex (indexes n List.mem_cons_self)
      have longer := List.rel_append rows (.cons isIndex .nil)
      obtain ⟨parts, paths, text, each, flat⟩ :=
        ih isName longer laterNames laterIndexes (.name isName longer)
      refine ⟨parts, paths, ?_, each, by simp [flat]⟩
      rw [← text]
      simp [Segment.joinedText, indexText_toList]
    | field other =>
      have next := names other List.mem_cons_self
      obtain ⟨parts, paths, text, each, flat⟩ :=
        ih next .nil laterNames laterIndexes (.name next .nil)
      have nonempty : parts ≠ [] := by
        rintro rfl
        cases each
        contradiction
      refine ⟨_ :: parts, _ :: paths, ?_, .cons here each, by simp [flat]⟩
      rw [List.intercalate_cons_of_ne_nil nonempty, ← text]
      simp [Segment.joinedText]

theorem Plain.spelling {p : Path} (plain : p.Plain) : Spelling p.toText p := by
  refine ⟨?_, plain.starts, plain.notBlank⟩
  obtain ⟨name, starts⟩ := plain.starts
  cases p with
  | nil => contradiction
  | cons segment rest =>
    cases segment with
    | index n => contradiction
    | field name =>
      obtain ⟨parts, paths, text, each, flat⟩ := exists_parts
        (plain.names name List.mem_cons_self) .nil
        (fun other member => plain.names other (List.mem_cons_of_mem _ member))
        fun n member => plain.indexes n (List.mem_cons_of_mem _ member)
      refine ⟨parts, paths, ?_, each, by simp [flat]⟩
      rw [← text]
      simp [toText, Segment.joinText, Segment.text]

theorem IsPart.ne_nil (isPart : IsPart chars p) : p ≠ [] := by
  cases isPart <;> exact List.cons_ne_nil _ _

/-- What the segments of a part are. -/
theorem IsPart.segments (isPart : IsPart chars p) :
    (∀ name, .field name ∈ p → IsName name.toList) ∧ ∀ n, .index n ∈ p → n < 2 ^ 64 := by
  cases isPart with
  | @name name rows ns isName indexes =>
    have bounds : ∀ n ∈ ns, n < 2 ^ 64 := by
      induction indexes with
      | nil => simp
      | cons isIndex _ ih => exact List.forall_mem_cons.mpr ⟨isIndex.bound, ih⟩
    constructor
    · intro other member
      simp only [List.mem_cons, Segment.field.injEq, List.mem_map, reduceCtorEq, and_false,
        exists_false, or_false] at member
      rwa [member, String.toList_ofList]
    · intro n member
      exact bounds n (by simpa using member)
  | index isIndex =>
    constructor
    · intro name member
      simp at member
    · intro n member
      cases List.mem_singleton.mp member
      exact isIndex.bound

theorem parts_segments (parts : List.Forall₂ IsPart rows paths) :
    (∀ name, .field name ∈ paths.flatten → IsName name.toList) ∧
      ∀ n, .index n ∈ paths.flatten → n < 2 ^ 64 := by
  induction parts with
  | nil => simp
  | cons isPart _ ih =>
    obtain ⟨names, indexes⟩ := isPart.segments
    simp only [List.flatten_cons, List.mem_append]
    exact ⟨fun name member => member.elim (names name) (ih.1 name),
      fun n member => member.elim (indexes n) (ih.2 n)⟩

/-- A field alone is written as it was spelled. -/
theorem Spelling.toText_eq {text : String} (spelling : Spelling text [.field name]) :
    text = name := by
  obtain ⟨rows, paths, whole, parts, flat⟩ := spelling.parts
  cases parts with
  | nil => contradiction
  | @cons row path rows paths first others =>
    have behind : paths = [] := by
      cases others with
      | nil => rfl
      | cons second _ =>
        have length := congrArg List.length flat
        have one := List.length_pos_iff.mpr first.ne_nil
        have two := List.length_pos_iff.mpr second.ne_nil
        simp only [List.length_singleton, List.flatten_cons, List.length_append] at length
        omega
    subst behind
    cases others
    rw [List.intercalate_singleton] at whole
    rw [List.flatten_singleton] at flat
    subst flat
    generalize same : [Segment.field name] = p at first
    cases first with
    | @name chars digits ns isName indexes =>
      obtain ⟨field, none⟩ := List.cons.inj same
      cases List.map_eq_nil_iff.mp none.symm
      cases indexes
      cases field
      rw [← String.ofList_toList (s := text), whole, List.flatMap_nil, List.append_nil]
    | index => cases same

theorem Spelling.plain {text : String} {p : Path} (spelling : Spelling text p) : p.Plain := by
  obtain ⟨rows, paths, _, parts, flat⟩ := spelling.parts
  obtain ⟨names, indexes⟩ := parts_segments parts
  rw [← flat] at names indexes
  refine ⟨spelling.starts, names, indexes, ?_⟩
  obtain ⟨name, starts⟩ := spelling.starts
  cases p with
  | nil => contradiction
  | cons segment rest =>
    cases segment with
    | index n => contradiction
    | field name =>
      cases rest with
      | nil =>
        have same : text = toText [.field name] := by
          rw [spelling.toText_eq]
          simp [toText, Segment.joinText, Segment.text]
        rw [← same]
        exact spelling.notBlank
      | cons second rest =>
        -- A dot or a bracket stands behind the first name.
        cases second <;> simp [Text.isBlankText, toText, Segment.joinText, Segment.joinedText,
          indexText, Text.isBlank]

theorem parse_ok_iff {text : String} {p : Path} : parse text = .ok p ↔ Spelling text p := by
  rw [← ofText_ok_iff, parse, mapError_eq_ok]

theorem Plain.parse_toText {p : Path} (plain : p.Plain) : parse p.toText = .ok p :=
  parse_ok_iff.mpr plain.spelling

/-- The texts that are read are those of the grammar, with the segments in order. Reading undoes
writing on every path that was read and on every path that can be spelled at all, so these have
different texts, and to follow one of them is to follow its text. -/
theorem parse_exact :
    (∀ text p, parse text = .ok p ↔ Spelling text p) ∧
      (∀ text p, parse text = .ok p → parse p.toText = .ok p) ∧
      (∀ p : Path, p.Plain → parse p.toText = .ok p) ∧
      (∀ p q : Path, p.Plain → q.Plain → p.toText = q.toText → p = q) ∧
      ∀ (schema : Schema) (p : Path), p.Plain → schema.resolveText p.toText = schema.resolve p := by
  refine ⟨fun _ _ => parse_ok_iff, ?_, fun _ plain => plain.parse_toText, ?_, ?_⟩
  · intro text p read
    exact (parse_ok_iff.mp read).plain.parse_toText
  · intro p q plain plain' same
    have read := plain.parse_toText
    rw [same, plain'.parse_toText] at read
    exact (Except.ok.inj read).symm
  · intro schema p plain
    rw [Schema.resolveText, plain.parse_toText]
    rfl

end Path

namespace Wardrobe

def schema : Schema :=
  [("id", .partitionKey .string), ("top drawer", .list (some (.map [(" ", .scalar .string)])))]

/-- A name with a blank in it, an index with zeros in front, and a name that is a blank. -/
def text : String :=
  "top drawer.[007]. "

def place : Path :=
  [.field "top drawer", .index 7, .field " "]

theorem place_exact :
    Path.Spelling text place ∧ place.toText = "top drawer[7]. " ∧
      Path.parse "top drawer[7]. " = .ok place ∧ place.Plain ∧
      schema.resolveText "top drawer[7]. " = schema.resolve place ∧
      ∀ q : Path, q.Plain → q.toText = "top drawer[7]. " → q = place := by
  obtain ⟨exact, again, plain, injective, resolved⟩ := Path.parse_exact
  have read : Path.parse text = .ok place := by decide
  have spelling := (exact text place).mp read
  have written : place.toText = "top drawer[7]. " := by decide
  refine ⟨spelling, written, ?_, spelling.plain, ?_, ?_⟩
  · rw [← written]
    exact again text place read
  · rw [← written]
    exact resolved schema place spelling.plain
  · intro q plain' same
    exact injective q place plain' spelling.plain (same.trans written.symm)

end Wardrobe

end ItemSchema
