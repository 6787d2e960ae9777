import ItemSchema.Proofs.Codec.Untyped
import ItemSchema.Proofs.Codec.WritingBack

/-! What decoding puts in where the store has nothing. A decoded value has all that its attribute
makes of the wire value, and in a whole item the empty lists and maps of every map that is there;
nothing else stands at a place where the wire value has nothing. -/
namespace ItemSchema

/-- At the path the wire value has nothing, though it has the map of which the attribute at the path
is a list or a map; whole items have the empty value there. -/
inductive Attribute.Lacks (a : Attribute) (w : Wire) : Path → Value → Prop where
  | field (leads : a.Leads p (.map fields)) (held : w.at? p = some (.m entries))
    (absent : Record.find? name entries = none) (member : (name, b) ∈ fields)
    (empty : b.emptyContainer? = some u) : Lacks a w (p ++ [.field name]) u

theorem Attribute.emptyContainer?_flat {a : Attribute} (empty : a.emptyContainer? = some u) :
    u.contents = [] := by
  cases a with
  | list | map =>
    cases empty
    rfl
  | _ => contradiction

namespace Attribute.Lacks

theorem absent {a : Attribute} (lacks : a.Lacks w q u) : w.at? q = none := by
  cases lacks with
  | field leads held absent member empty =>
    rw [Wire.at?_append, held, Option.bind_some, Wire.at?, absent, Option.bind_none]

theorem flat {a : Attribute} (lacks : a.Lacks w q u) : u.contents = [] := by
  cases lacks with
  | field leads held absent member empty => exact emptyContainer?_flat empty

theorem inside {a b : Attribute} (leads : a.Leads p b) (held : w.at? p = some x)
    (lacks : b.Lacks x q u) : a.Lacks w (p ++ q) u := by
  cases lacks with
  | field further inner absent member empty =>
    rw [← List.append_assoc]
    refine .field (leads.trans further) ?_ absent member empty
    rw [Wire.at?_append, held, Option.bind_some, inner]

end Attribute.Lacks

theorem Decoding.absent_eq (d : Decoding) (a : Attribute) :
    d.absent a = if d.fillAbsent then a.emptyContainer? else none := by
  cases a <;> simp [absent, Attribute.emptyContainer?]

/-- There is nothing in a value without contents. -/
theorem Value.at?_of_flat {v : Value} (flat : v.contents = []) (s : Segment String) (p : Path) :
    v.at? (s :: p) = none := by
  cases v with
  | list items =>
    cases flat
    cases s <;> simp [at?]
  | map fields =>
    rw [contents, List.map_eq_nil_iff] at flat
    cases s <;> simp [at?, flat, Record.find?]
  | _ => cases s <;> rfl

theorem Value.ofNumberText_flat (number : String) : (ofNumberText number).contents = [] := by
  unfold ofNumberText
  split <;> rfl

/-- Decoding without an attribute keeps every place. -/
theorem Wire.at?_untyped (w : Wire) (q : Path) : w.untyped.at? q = (w.at? q).map untyped := by
  induction q generalizing w with
  | nil => rfl
  | cons s rest ih =>
    cases s with
    | field name =>
      cases w with
      | m fields =>
        rw [untyped, Value.at?, at?, find?_untypedFields, Option.map_bind, Option.bind_map]
        exact congrArg _ (funext ih)
      | n number => exact Value.at?_of_flat (Value.ofNumberText_flat number) _ rest
      | _ => rfl
    | index n =>
      cases w with
      | l items =>
        rw [untyped, Value.at?, at?, untypedItems_eq_map, List.getElem?_map, Option.map_bind,
          Option.bind_map]
        exact congrArg _ (funext ih)
      | n number => exact Value.at?_of_flat (Value.ofNumberText_flat number) _ rest
      | _ => rfl

/-- Where something in a decoded value comes from, one step down: from what the wire value has
there, or from nothing. -/
inductive Decoding.Origin (d : Decoding) (a : Attribute) (w : Wire) (s : Segment String)
    (u : Value) : Prop where
  | untyped (found : w.at? [s] = some x) (same : u = x.untyped) : Origin d a w s u
  | read (leads : a.Leads [s] b) (found : w.at? [s] = some x)
    (decoded : decodeAt d p b (some x) = .ok (some u)) : Origin d a w s u
  | filled (fills : d.fillAbsent = true) (lacks : a.Lacks w [s] u) : Origin d a w s u

section

variable {d : Decoding} {p q : Path}

theorem decodeScalar_flat (decoded : decodeScalar mode p of w = .ok v) :
    v = w.untyped ∨ v.contents = [] := by
  have unfit : ∀ {of number}, decodeUnfit mode p of number = .ok v → v.contents = [] := by
    intro of number decoded
    unfold decodeUnfit at decoded
    split at decoded
    · cases mode with
      | strict => contradiction
      | lenient =>
        cases decoded
        rfl
    · contradiction
  unfold decodeScalar at decoded
  split at decoded
  case h_1 | h_4 =>
    cases decoded
    exact .inr rfl
  case h_2 =>
    rw [decodeNumber_untyped decoded]
    exact .inr (Value.ofNumberText_flat _)
  case h_3 =>
    split at decoded
    · cases decoded
      exact .inr rfl
    · exact .inr (unfit decoded)
  case h_5 =>
    split at decoded
    · cases decoded
      exact .inr rfl
    · contradiction
  all_goals exact .inl (decodeMismatch_untyped decoded)

/-- A field of a decoded map comes from an attribute of its name. -/
theorem decodeFields_mem {schema : Schema}
    (decoded : decodeFields d p entries schema = .ok fields)
    (held : Record.find? name (Record.ofList fields) = some u) :
    ∃ a, (name, a) ∈ schema ∧
      decodeAt d (p ++ [.field name]) a (Record.find? name entries) = .ok (some u) := by
  obtain ⟨g, rfl, each⟩ := decodeFields_ok_iff.mp decoded
  have member := Record.mem_ofList (Record.mem_of_find? held)
  obtain ⟨⟨key, a⟩, known, chosen⟩ := List.mem_filterMap.mp member
  obtain ⟨v, given, same⟩ := Option.map_eq_some_iff.mp chosen
  cases same
  have here := each _ known
  rw [given] at here
  exact ⟨a, known, here⟩

theorem origin_of_untyped {a : Attribute} (held : w.untyped.at? [s] = some u) :
    d.Origin a w s u := by
  rw [Wire.at?_untyped] at held
  obtain ⟨x, found, same⟩ := Option.map_eq_some_iff.mp held
  exact .untyped found same.symm

theorem origin_of_decodeItems {item : Attribute} {ws : List Wire}
    (decoded : decodeItems (fun i w => decodeAt d (p ++ [.index i]) item (some w)) 0 ws = .ok vs)
    (held : (Value.list vs).at? [s] = some u) :
    d.Origin (.list (some item)) (.l ws) s u := by
  cases s with
  | field => contradiction
  | index n =>
    have given : vs[n]? = some u := by simpa [Value.at?] using held
    obtain ⟨_, nothing⟩ | ⟨x, y, found, here, kept⟩ := decodeItems_getElem? decoded n
    · rw [given] at nothing
      contradiction
    · obtain ⟨z, rfl⟩ := decodeAt_present here
      cases given.symm.trans kept
      exact .read (.index n (.here item)) (by simpa [Wire.at?] using found) here

theorem origin_of_decodeFields {schema : Schema}
    (decoded : decodeFields d p entries schema = .ok fields)
    (held : (Value.map (Record.ofList fields)).at? [s] = some u) :
    d.Origin (.map schema) (.m entries) s u := by
  cases s with
  | index => contradiction
  | field name =>
    have given : Record.find? name (Record.ofList fields) = some u := by
      simpa [Value.at?] using held
    obtain ⟨a, known, here⟩ := decodeFields_mem decoded given
    cases found : Record.find? name entries with
    | some x =>
      rw [found] at here
      exact .read (.field known (.here a)) (by simpa [Wire.at?] using found) here
    | none =>
      rw [found, decodeAt, Except.ok.injEq, d.absent_eq] at here
      split at here
      · rename_i fills
        exact .filled fills (.field (.here _) rfl found known here)
      · contradiction

theorem decodeAt_origin {a : Attribute} (decoded : decodeAt d p a (some w) = .ok (some v))
    (held : v.at? [s] = some u) : d.Origin a w s u := by
  by_cases tagged : w.tag = .null
  · cases w with
    | null =>
      rw [decodeAt] at decoded
      cases decoded
      cases s <;> contradiction
    | _ => contradiction
  · cases a with
    | partitionKey of | sortKey of | scalar of =>
      rw [decodeAt_scalar rfl tagged] at decoded
      obtain ⟨_, read, same⟩ := map_eq_ok.mp decoded
      cases same
      rcases decodeScalar_flat read with rfl | flat
      · exact origin_of_untyped held
      · rw [Value.at?_of_flat flat] at held
        contradiction
    | set of =>
      rw [decodeAt_set tagged] at decoded
      obtain ⟨_, read, same⟩ := map_eq_ok.mp decoded
      cases same
      rw [decodeSet_untyped read] at held
      exact origin_of_untyped held
    | list items =>
      cases w with
      | null => contradiction
      | l ws =>
        cases items with
        | none => contradiction
        | some item =>
          obtain ⟨vs, read, same⟩ := map_eq_ok.mp decoded
          cases same
          exact origin_of_decodeItems read held
      | _ =>
        obtain ⟨_, read, same⟩ := map_eq_ok.mp decoded
        cases same
        rw [decodeMismatch_untyped read] at held
        exact origin_of_untyped held
    | map schema =>
      cases w with
      | null => contradiction
      | m entries =>
        obtain ⟨fields, read, same⟩ := bind_eq_ok.mp decoded
        cases same
        exact origin_of_decodeFields read held
      | _ =>
        obtain ⟨_, read, same⟩ := map_eq_ok.mp decoded
        cases same
        rw [decodeMismatch_untyped read] at held
        exact origin_of_untyped held

/-- Whatever a decoded value has where the wire value has nothing was put in. -/
theorem decodeAt_lacks {a : Attribute} (decoded : decodeAt d p a (some w) = .ok (some v))
    (absent : w.at? q = none) (held : v.at? q = some u) :
    d.fillAbsent = true ∧ a.Lacks w q u := by
  induction q generalizing a p w v with
  | nil => contradiction
  | cons s rest ih =>
    rw [← List.singleton_append, Value.at?_append, Option.bind_eq_some_iff] at held
    rw [← List.singleton_append, Wire.at?_append] at absent
    obtain ⟨y, here, held⟩ := held
    cases decodeAt_origin decoded here with
    | untyped found same =>
      rw [found, Option.bind_some] at absent
      rw [same, Wire.at?_untyped, absent] at held
      contradiction
    | read leads found inside =>
      rw [found, Option.bind_some] at absent
      obtain ⟨fills, lacks⟩ := ih inside absent held
      exact ⟨fills, lacks.inside leads found⟩
    | filled fills lacks =>
      cases rest with
      | nil =>
        cases held
        exact ⟨fills, lacks⟩
      | cons t rest =>
        rw [Value.at?_of_flat lacks.flat] at held
        contradiction

/-- What the wire value has one step down is in the decoded value, as its attribute reads it. -/
theorem decodeAt_child {a b : Attribute} (sound : a.Sound) (below : a.Below s b)
    (decoded : decodeAt d p a (some w) = .ok (some v)) (held : w.at? [s] = some x) :
    ∃ y, v.at? [s] = some y ∧ decodeAt d (p ++ [s]) b (some x) = .ok (some y) := by
  cases below with
  | @field schema name _ found =>
    cases w with
    | m entries =>
      obtain ⟨fields, read, same⟩ := bind_eq_ok.mp decoded
      cases same
      have present : Record.find? name entries = some x := by simpa [Wire.at?] using held
      have here := decodeFields_find? sound.level.distinct read name
      rw [found, present] at here
      obtain ⟨y, given⟩ := decodeAt_present here
      rw [given] at here
      exact ⟨y, by simpa [Value.at?] using given, here⟩
    | _ => contradiction
  | index item n =>
    cases w with
    | l ws =>
      obtain ⟨vs, read, same⟩ := map_eq_ok.mp decoded
      cases same
      have present : ws[n]? = some x := by simpa [Wire.at?] using held
      obtain ⟨beyond, _⟩ | ⟨x', u, found, here, kept⟩ := decodeItems_getElem? read n
      · rw [present] at beyond
        contradiction
      · cases present.symm.trans found
        obtain ⟨y, rfl⟩ := decodeAt_present here
        rw [Nat.zero_add] at here
        exact ⟨y, by simpa [Value.at?] using kept, here⟩
    | _ => contradiction

/-- What the wire value has is in the decoded value, as its attribute reads it. -/
theorem decodeAt_descendant {a b : Attribute} (sound : a.Sound) (leads : a.Leads q b)
    (decoded : decodeAt d p a (some w) = .ok (some v)) (held : w.at? q = some x) :
    ∃ y, v.at? q = some y ∧ decodeAt d (p ++ q) b (some x) = .ok (some y) := by
  induction q generalizing a p w v with
  | nil =>
    cases leads
    cases held
    exact ⟨v, rfl, by rwa [List.append_nil]⟩
  | cons s rest ih =>
    have followed : a.follow [] [] (s :: rest) = .ok b := sound.follow_iff.mpr leads
    obtain ⟨next, below, further⟩ := Attribute.follow_cons_ok_iff.mp followed
    rw [← List.singleton_append, Wire.at?_append, Option.bind_eq_some_iff] at held
    obtain ⟨z, here, held⟩ := held
    obtain ⟨y, found, read⟩ := decodeAt_child sound below decoded here
    obtain ⟨u, inside, given⟩ :=
      ih (sound.below below) (Attribute.leads_of_follow further) read held
    rw [List.append_assoc, List.singleton_append] at given
    refine ⟨u, ?_, given⟩
    rw [← List.singleton_append, Value.at?_append, found, Option.bind_some, inside]

/-- A whole item has an empty value wherever a list or a map is lacking. -/
theorem decodeAt_filled {a : Attribute} (sound : a.Sound) (fills : d.fillAbsent = true)
    (decoded : decodeAt d p a (some w) = .ok (some v)) (lacks : a.Lacks w q u) :
    v.at? q = some u := by
  cases lacks with
  | @field p fields entries name b _ leads held absent member empty =>
    obtain ⟨y, inside, given⟩ := decodeAt_descendant sound leads decoded held
    obtain ⟨read, decodedFields, same⟩ := bind_eq_ok.mp given
    cases same
    have distinct := (sound.leads leads).level.distinct
    have here := decodeFields_find? distinct decodedFields name
    simp only [Schema.get?, Record.find?_of_mem distinct member, absent, decodeAt, d.absent_eq,
      if_pos fills, empty, Except.ok.injEq] at here
    rw [Value.at?_append, inside, Option.bind_some, Value.at?, ← here]
    rfl

/-- Where the wire value has nothing a part of an item has nothing, and a whole item has an empty
value for each list and map that is lacking. -/
theorem decodeAt_absent_iff {a : Attribute} (sound : a.Sound)
    (decoded : decodeAt d p a (some w) = .ok (some v)) (absent : w.at? q = none) :
    v.at? q = some u ↔ d.fillAbsent = true ∧ a.Lacks w q u := by
  constructor
  · exact decodeAt_lacks decoded absent
  · rintro ⟨fills, lacks⟩
    exact decodeAt_filled sound fills decoded lacks

end

end ItemSchema
