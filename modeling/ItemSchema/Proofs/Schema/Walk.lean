import ItemSchema.Proofs.Schema.Resolution
import Mathlib.Data.List.Induction

/-! Resolution as a walk: from the map of all fields, the left fold of one step down for each
segment. The first segment that leads nowhere settles the kind of the failure, however the path goes
on. -/
namespace ItemSchema

/-- Why there is nothing below an attribute for a segment. -/
inductive Impasse where
  | missingField
  | bareList
  | wrongSegment
  deriving DecidableEq

/-- How an impasse in front of a segment is reported when a whole path is followed. -/
def Impasse.error (whole front : Path) (segment : Segment String) : Impasse → Error
  | .missingField => .pathNotFound whole
  | .bareList => .missingItemSchema front
  | .wrongSegment => .invalidSegment whole segment

/-- One segment down: a field of a map leads to the attribute of its name, an index of a list to
that of its items, and nothing else leads anywhere. -/
def Attribute.step : Attribute → Segment String → Except Impasse Attribute
  | .map fields, .field name => (Schema.get? fields name).elim (.error .missingField) .ok
  | .list (some item), .index _ => .ok item
  | .list none, .index _ => .error .bareList
  | _, _ => .error .wrongSegment

/-- How far a path has been followed, and the attribute that it leads to so far. -/
structure Trail where
  front : Path
  place : Attribute

/-- The trail with one more segment of a whole path. -/
def Trail.step (whole : Path) (t : Trail) (segment : Segment String) : Except Error Trail :=
  match t.place.step segment with
  | .ok a => .ok ⟨t.front ++ [segment], a⟩
  | .error why => .error (why.error whole t.front segment)

/-- The same name, or an index and an index. -/
inductive Segment.AlikeButIndex : Segment String → Segment String → Prop where
  | field (name : String) : AlikeButIndex (.field name) (.field name)
  | index (m n : Nat) : AlikeButIndex (.index m) (.index n)

/-- A path comes to an impasse in front of one of its segments: what stands before the segment leads
to an attribute, and there is no step down from that. -/
structure Schema.Stops (schema : Schema) (p front : Path) (segment : Segment String)
    (why : Impasse) : Prop where
  within : front ++ [segment] <+: p
  stuck : ∃ a, front.foldlM Attribute.step (.map schema) = .ok a ∧ a.step segment = .error why

theorem Attribute.child_eq_step (a : Attribute) (whole done : Path) (segment : Segment String) :
    a.child whole done segment = (a.step segment).mapError (Impasse.error whole done segment) := by
  cases a with
  | map fields =>
    cases segment with
    | field name =>
      rw [child, step]
      cases Schema.get? fields name <;> rfl
    | index n => rfl
  | list item => cases item <;> cases segment <;> rfl
  | _ => rfl

/-- Following a path is the fold of its steps; the way so far only stands in errors. -/
theorem Attribute.follow_eq_foldlM (a : Attribute) (whole done p : Path) :
    a.follow whole done p = Trail.place <$> p.foldlM (Trail.step whole) ⟨done, a⟩ := by
  induction p generalizing a done with
  | nil => rfl
  | cons segment rest ih =>
    rw [follow, child_eq_step, List.foldlM_cons, Trail.step]
    cases a.step segment with
    | error why => rfl
    | ok next => exact ih next (done ++ [segment])

/-- The fold that keeps track of the way ends like the fold that does not. -/
theorem Attribute.follow_ok_iff_foldlM {a b : Attribute} {p : Path} :
    a.follow whole done p = .ok b ↔ p.foldlM step a = .ok b := by
  induction p generalizing a done with
  | nil => simp [follow]
  | cons segment rest ih =>
    rw [follow, child_eq_step, List.foldlM_cons]
    cases a.step segment with
    | error why => simp [Except.mapError, bind, Except.bind]
    | ok next => exact ih

/-- What stands behind an impasse plays no part. -/
theorem Attribute.follow_of_stuck {a b : Attribute} {front : Path} {segment : Segment String}
    (leads : front.foldlM step a = .ok b) (stuck : b.step segment = .error why) :
    a.follow whole done (front ++ segment :: back) =
      .error (why.error whole (done ++ front) segment) := by
  induction front generalizing a done with
  | nil =>
    cases leads
    rw [List.nil_append, follow, child_eq_step, stuck, List.append_nil]
    rfl
  | cons first rest ih =>
    rw [List.foldlM_cons, bind_eq_ok] at leads
    obtain ⟨next, stepped, leads⟩ := leads
    rw [List.cons_append, follow, child_eq_step, stepped]
    exact (ih leads).trans (by simp)

theorem Attribute.step_alike {s t : Segment String} (alike : s.AlikeButIndex t) (a : Attribute) :
    a.step s = a.step t := by
  cases alike with
  | field name => rfl
  | index m n =>
    cases a with
    | list item => cases item <;> rfl
    | _ => rfl

theorem Attribute.foldlM_step_alike {p q : Path} (alike : List.Forall₂ Segment.AlikeButIndex p q)
    (a : Attribute) : p.foldlM step a = q.foldlM step a := by
  induction alike generalizing a with
  | nil => rfl
  | cons first _ ih => simp only [List.foldlM_cons, step_alike first, ih]

namespace Schema

variable {schema : Schema} {p q front : Path} {segment : Segment String}

theorem resolve_eq_follow (inside : p ≠ []) :
    schema.resolve p = (Attribute.map schema).follow p [] p := by
  cases p with
  | nil => contradiction
  | cons => rfl

theorem resolve_ok_iff_foldlM (inside : p ≠ []) :
    schema.resolve p = .ok a ↔ p.foldlM Attribute.step (.map schema) = .ok a := by
  rw [resolve_eq_follow inside, Attribute.follow_ok_iff_foldlM]

/-- A fold that fails comes to an impasse at one of its segments. -/
theorem stops_of_foldlM_error (failed : p.foldlM Attribute.step (.map schema) = .error why) :
    ∃ front segment, schema.Stops p front segment why := by
  induction p using List.reverseRecOn with
  | nil => contradiction
  | append_singleton front segment ih =>
    rw [List.foldlM_append, bind_eq_error] at failed
    rcases failed with earlier | ⟨a, leads, here⟩
    · obtain ⟨before, first, stops⟩ := ih earlier
      exact ⟨before, first, stops.within.trans (List.prefix_append _ _), stops.stuck⟩
    · rw [List.foldlM_cons, bind_eq_error] at here
      rcases here with stuck | ⟨_, _, impossible⟩
      · exact ⟨front, segment, List.prefix_rfl, a, leads, stuck⟩
      · contradiction

namespace Stops

theorem append (stops : schema.Stops p front segment why) (q : Path) :
    schema.Stops (p ++ q) front segment why :=
  ⟨stops.within.trans (List.prefix_append p q), stops.stuck⟩

theorem resolve_eq (stops : schema.Stops p front segment why) :
    schema.resolve p = .error (why.error p front segment) := by
  obtain ⟨⟨back, rfl⟩, a, leads, stuck⟩ := stops
  rw [List.append_assoc, List.singleton_append]
  rw [resolve_eq_follow (by simp), Attribute.follow_of_stuck leads stuck, List.nil_append]

end Stops

/-- Resolution is the fold of its steps, one for each segment. So what leads somewhere leads
somewhere all the way, one more segment is one more step, and indexes count for nothing but being
indexes. A path that leads nowhere comes to an impasse in front of one segment, and this is what is
reported of it and of all paths that go on from there. -/
theorem resolve_walks (schema : Schema) :
    (∀ p, p ≠ [] →
      schema.resolve p = Trail.place <$> p.foldlM (Trail.step p) ⟨[], .map schema⟩) ∧
    (∀ p q a, p ≠ [] → schema.resolve (p ++ q) = .ok a → ∃ b, schema.resolve p = .ok b) ∧
    (∀ p segment a, schema.resolve p = .ok a →
      schema.resolve (p ++ [segment]) =
        (a.step segment).mapError (Impasse.error (p ++ [segment]) p segment)) ∧
    (∀ p q, p ≠ [] → List.Forall₂ Segment.AlikeButIndex p q →
      (∃ a, schema.resolve p = .ok a ∧ schema.resolve q = .ok a) ∨
        ∃ (why : Impasse) (front front' : Path) (segment segment' : Segment String),
          schema.resolve p = .error (why.error p front segment) ∧
            schema.resolve q = .error (why.error q front' segment')) ∧
    ∀ p e, p ≠ [] → schema.resolve p = .error e →
      ∃ front segment why, schema.Stops p front segment why ∧
        e = why.error p front segment ∧
        ∀ q, schema.resolve (p ++ q) = .error (why.error (p ++ q) front segment) := by
  refine ⟨?_, ?_, ?_, ?_, ?_⟩
  · intro p inside
    rw [resolve_eq_follow inside, Attribute.follow_eq_foldlM]
  · intro p q a inside resolved
    rw [resolve_ok_iff_foldlM (by simp [inside]), List.foldlM_append] at resolved
    obtain ⟨b, first, _⟩ := bind_eq_ok.mp resolved
    exact ⟨b, (resolve_ok_iff_foldlM inside).mpr first⟩
  · intro p segment a resolved
    have inside : p ≠ [] := by
      rintro rfl
      contradiction
    have leads := (resolve_ok_iff_foldlM inside).mp resolved
    cases stepped : a.step segment with
    | ok next =>
      refine (resolve_ok_iff_foldlM (by simp)).mpr ?_
      rw [List.foldlM_append, leads, bind_eq_ok]
      exact ⟨a, rfl, by simp [stepped]⟩
    | error why => exact Stops.resolve_eq ⟨List.prefix_rfl, a, leads, stepped⟩
  · intro p q inside alike
    have folded := Attribute.foldlM_step_alike alike (.map schema)
    have inside' : q ≠ [] := by
      rintro rfl
      cases alike
      contradiction
    cases ended : p.foldlM Attribute.step (.map schema) with
    | ok a =>
      exact .inl ⟨a, (resolve_ok_iff_foldlM inside).mpr ended,
        (resolve_ok_iff_foldlM inside').mpr (folded.symm.trans ended)⟩
    | error why =>
      obtain ⟨front, segment, stops⟩ := stops_of_foldlM_error ended
      obtain ⟨front', segment', stops'⟩ := stops_of_foldlM_error (folded.symm.trans ended)
      exact .inr ⟨why, front, front', segment, segment', stops.resolve_eq, stops'.resolve_eq⟩
  · intro p e inside failed
    cases ended : p.foldlM Attribute.step (.map schema) with
    | ok a =>
      rw [(resolve_ok_iff_foldlM inside).mpr ended] at failed
      contradiction
    | error why =>
      obtain ⟨front, segment, stops⟩ := stops_of_foldlM_error ended
      rw [stops.resolve_eq, Except.error.injEq] at failed
      exact ⟨front, segment, why, stops, failed.symm, fun q => (stops.append q).resolve_eq⟩

end Schema

namespace Atlas

/-- The notes on a sheet are a list that no check has seen. -/
def schema : Schema :=
  [("id", .partitionKey .string),
    ("sheets", .list (some (.map [("scale", .scalar .number), ("notes", .list none)])))]

def notes : Path :=
  [.field "sheets", .index 4, .field "notes"]

theorem notes_walked :
    schema.resolve notes = .ok (.list none) ∧
    schema.resolve notes =
      Trail.place <$> notes.foldlM (Trail.step notes) ⟨[], .map schema⟩ ∧
    (∃ b, schema.resolve [.field "sheets", .index 4] = .ok b) ∧
    schema.resolve (notes ++ [.index 0]) = .error (.missingItemSchema notes) ∧
    schema.resolve (notes ++ [.index 0] ++ [.field "author"]) = .error (.missingItemSchema notes) ∧
    schema.resolve [.field "sheets", .index 7, .field "notes"] = .ok (.list none) ∧
    ∃ front segment why, schema.Stops (notes ++ [.index 0]) front segment why := by
  obtain ⟨fold, front, step, alike, failed⟩ := Schema.resolve_walks schema
  have leads : schema.resolve notes = .ok (.list none) := rfl
  have bare : schema.resolve (notes ++ [.index 0]) = .error (.missingItemSchema notes) :=
    step notes (.index 0) _ leads
  have other : List.Forall₂ Segment.AlikeButIndex notes
      [.field "sheets", .index 7, .field "notes"] :=
    .cons (.field _) (.cons (.index 4 7) (.cons (.field _) .nil))
  obtain ⟨before, segment, why, stops, same, onwards⟩ := failed _ _ (by decide) bare
  refine ⟨leads, fold notes (by decide), front _ [.field "notes"] _ (by decide) leads, bare, ?_, ?_,
    before, segment, why, stops⟩
  · rw [onwards [.field "author"]]
    cases why with
    | bareList => exact congrArg Except.error same.symm
    | missingField | wrongSegment => contradiction
  · rcases alike notes _ (by decide) other with ⟨a, here, there⟩ | ⟨why, _, _, _, _, here, _⟩
    · rw [there, ← here, leads]
    · rw [leads] at here
      contradiction

end Atlas

end ItemSchema
