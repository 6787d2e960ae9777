import ItemSchema.Proofs.Codec.Conformance
import ItemSchema.Proofs.Codec.Lenience
import ItemSchema.Proofs.Codec.Rereading

/-! Parts of items against whole items. A part has what the store has, and the whole item over it an
empty list or map for each one that the store does not have; both fail alike, and neither looks at
entries that no schema names. -/
namespace ItemSchema

/-- What is decoded as a part, and as a whole, of what the store has for an attribute. -/
inductive Attribute.Fills :
    Attribute → Option Wire → (part whole : Option Value) → Prop where
  | absent (a : Attribute) : Fills a none none a.emptyContainer?
  | closed (closed : a.opens w = false) (v : Value) : Fills a (some w) (some v) (some v)
  | list (partLength : parts.length = ws.length) (wholeLength : wholes.length = ws.length)
    (each : ∀ (n : Nat) w, ws[n]? = some w → Fills item (some w) parts[n]? wholes[n]?) :
    Fills (.list (some item)) (some (.l ws)) (some (.list parts)) (some (.list wholes))
  | map (partRecord : Record.Sorted parts) (wholeRecord : Record.Sorted wholes)
    (each : ∀ name a, Schema.get? schema name = some a →
      Fills a (Record.find? name entries) (Record.find? name parts) (Record.find? name wholes))
    (unknown : ∀ name, Schema.get? schema name = none →
      Record.find? name parts = none ∧ Record.find? name wholes = none) :
    Fills (.map schema) (some (.m entries)) (some (.map parts)) (some (.map wholes))

/-- Wire values that differ in nothing but entries that the schema of their map does not name. -/
inductive Attribute.Agree : Attribute → Option Wire → Option Wire → Prop where
  | same (a : Attribute) (w : Option Wire) : Agree a w w
  | list {ws others : List Wire} (each : ∀ n : Nat, Agree item ws[n]? others[n]?) :
    Agree (.list (some item)) (some (.l ws)) (some (.l others))
  | map (each : ∀ name a, Schema.get? schema name = some a →
      Agree a (Record.find? name entries) (Record.find? name others)) :
    Agree (.map schema) (some (.m entries)) (some (.m others))

theorem Attribute.Fills.of_present {a : Attribute} (fills : a.Fills (some w) part whole) :
    ∃ p f, part = some p ∧ whole = some f := by
  cases fills with
  | closed | list | map => exact ⟨_, _, rfl, rfl⟩

theorem decodeItems_fills {part whole : Nat → Wire → Except Error (Option Value)}
    {item : Attribute}
    (each : ∀ i w, AlikeBy (item.Fills (some w)) (part i w) (whole i w)) (start : Nat)
    (ws : List Wire) :
    AlikeBy (fun parts wholes => (Attribute.list (some item)).Fills (some (.l ws))
        (some (.list parts)) (some (.list wholes)))
      (decodeItems part start ws) (decodeItems whole start ws) := by
  induction ws generalizing start with
  | nil => exact .ok (.list rfl rfl (by simp))
  | cons w rest ih =>
    rw [decodeItems, decodeItems]
    refine (each start w).bind fun v u here => (ih (start + 1)).bind fun parts wholes behind => ?_
    obtain ⟨v, u, rfl, rfl⟩ := here.of_present
    cases behind with
    | closed closed => contradiction
    | list partLength wholeLength behind =>
      refine .ok (.list (by simp [partLength]) (by simp [wholeLength]) ?_)
      intro n w' found
      cases n with
      | zero =>
        cases found
        exact here
      | succ n => exact behind n w' found

theorem decodeFields_alike {part whole : Decoding} {schema : Schema}
    {R : String × Attribute → Option Value → Option Value → Prop}
    (each : ∀ field ∈ schema, AlikeBy (R field)
      (decodeAt part (p ++ [.field field.1]) field.2 (Record.find? field.1 entries))
      (decodeAt whole (p ++ [.field field.1]) field.2 (Record.find? field.1 entries))) :
    AlikeBy (fun _ _ => True) (decodeFields part p entries schema)
      (decodeFields whole p entries schema) := by
  induction schema with
  | nil => exact .ok trivial
  | cons field rest ih =>
    obtain ⟨name, a⟩ := field
    obtain ⟨here, behind⟩ := List.forall_mem_cons.mp each
    rw [decodeFields, decodeFields]
    exact here.bind fun _ _ _ => (ih behind).bind fun _ _ _ => .ok trivial

theorem decodeFields_fills {part whole : Decoding} {schema : Schema}
    (distinct : (schema.map Prod.fst).Nodup)
    (each : ∀ field ∈ schema, ∀ p w,
      AlikeBy (field.2.Fills w) (decodeAt part p field.2 w) (decodeAt whole p field.2 w))
    (p : Path) (entries : List (String × Wire)) :
    AlikeBy (fun parts wholes => (Attribute.map schema).Fills (some (.m entries))
        (some (.map (Record.ofList parts))) (some (.map (Record.ofList wholes))))
      (decodeFields part p entries schema) (decodeFields whole p entries schema) := by
  have alike := decodeFields_alike fun field member =>
    each field member (p ++ [.field field.1]) (Record.find? field.1 entries)
  cases parts : decodeFields part p entries schema with
  | error e =>
    rw [alike.error_iff.mp parts]
    exact .error e
  | ok parts =>
    cases wholes : decodeFields whole p entries schema with
    | error e =>
      rw [alike.error_iff.mpr wholes] at parts
      contradiction
    | ok wholes =>
      obtain ⟨g, rfl, partOf⟩ := decodeFields_ok_iff.mp parts
      obtain ⟨h, rfl, wholeOf⟩ := decodeFields_ok_iff.mp wholes
      refine .ok (.map (Record.ofList_sorted _) (Record.ofList_sorted _) ?_ ?_)
      · intro name a found
        have member := Record.mem_of_find? found
        have alike := each _ member (p ++ [.field name]) (Record.find? name entries)
        rw [partOf _ member, wholeOf _ member] at alike
        cases alike with
        | ok fills =>
          rw [Schema.get?] at found
          rw [Record.find?_ofList_select g distinct, Record.find?_ofList_select h distinct, found]
          exact fills
      · intro name unknown
        rw [Schema.get?] at unknown
        rw [Record.find?_ofList_select g distinct, Record.find?_ofList_select h distinct, unknown]
        exact ⟨rfl, rfl⟩

theorem decodeAt_closed {a : Attribute} (closed : a.opens w = false) (x : Except Error Value) :
    AlikeBy (a.Fills (some w)) (some <$> x) (some <$> x) := by
  cases x with
  | error e => exact .error e
  | ok v => exact .ok (.closed closed v)

/-- What is absent is filled in the whole item alone, and null is null in both. -/
theorem decodeAt_fills_of_present {a : Attribute}
    (present : ∀ p w, w.tag ≠ .null → AlikeBy (a.Fills (some w))
      (decodeAt ⟨mode, false⟩ p a (some w)) (decodeAt ⟨mode, true⟩ p a (some w)))
    (p : Path) (w : Option Wire) :
    AlikeBy (a.Fills w) (decodeAt ⟨mode, false⟩ p a w) (decodeAt ⟨mode, true⟩ p a w) := by
  cases w with
  | none =>
    have part : Decoding.absent ⟨mode, false⟩ a = none := by cases a <;> rfl
    have whole : Decoding.absent ⟨mode, true⟩ a = a.emptyContainer? := by cases a <;> rfl
    rw [decodeAt, decodeAt, part, whole]
    exact .ok (.absent a)
  | some w =>
    by_cases tagged : w.tag = .null
    · cases w with
      | null =>
        have closed : a.opens .null = false := by cases a <;> simp [Attribute.opens]
        rw [decodeAt, decodeAt]
        exact .ok (.closed closed .null)
      | _ => contradiction
    · exact present p w tagged

/-- The two ways of decoding go the same steps and differ in what is absent alone. -/
theorem decodeAt_fills (mode : DecodeMode) {a : Attribute} (sound : a.Sound) (p : Path)
    (w : Option Wire) :
    AlikeBy (a.Fills w) (decodeAt ⟨mode, false⟩ p a w) (decodeAt ⟨mode, true⟩ p a w) := by
  induction a using Attribute.below_induction generalizing p w with
  | scalar a of typed =>
    apply decodeAt_fills_of_present
    intro p w present
    have closed : a.opens w = false := by
      cases a with
      | partitionKey | sortKey | scalar => rfl
      | _ => contradiction
    rw [decodeAt_scalar typed present, decodeAt_scalar typed present]
    exact decodeAt_closed closed _
  | set of =>
    apply decodeAt_fills_of_present
    intro p w present
    rw [decodeAt_set present, decodeAt_set present]
    exact decodeAt_closed rfl _
  | bare => exact absurd sound Attribute.Sound.not_bare
  | list item ih =>
    apply decodeAt_fills_of_present
    intro p w present
    cases w with
    | null => contradiction
    | l items =>
      rw [decodeAt, decodeAt]
      exact (decodeItems_fills (fun i w => ih sound.item _ (some w)) 0 items).map
        fun _ _ fills => fills
    | _ => exact decodeAt_closed rfl (decodeMismatch mode p .l _)
  | map fields ih =>
    apply decodeAt_fills_of_present
    intro p w present
    cases w with
    | null => contradiction
    | m entries =>
      have each := decodeFields_fills sound.level.distinct
        (fun field member => ih field member (sound.field member)) p entries
      rw [decodeAt, decodeAt]
      exact each.bind fun _ _ fills => .ok fills
    | _ => exact decodeAt_closed rfl (decodeMismatch mode p .m _)

namespace Attribute.Agree

theorem isSome_eq {a : Attribute} (agree : a.Agree w x) : w.isSome = x.isSome := by
  cases agree <;> rfl

theorem length_eq {item : Attribute} {ws others : List Wire}
    (each : ∀ n : Nat, item.Agree ws[n]? others[n]?) : ws.length = others.length := by
  have beyond : ∀ n : Nat, ws.length ≤ n ↔ others.length ≤ n := by
    intro n
    rw [← List.getElem?_eq_none_iff, ← List.getElem?_eq_none_iff, ← Option.not_isSome_iff_eq_none,
      ← Option.not_isSome_iff_eq_none, (each n).isSome_eq]
  exact Nat.le_antisymm ((beyond _).mpr (Nat.le_refl _)) ((beyond _).mp (Nat.le_refl _))

end Attribute.Agree

theorem decodeItems_congr {decode : Nat → Wire → Except Error (Option Value)}
    {ws others : List Wire} (length : ws.length = others.length)
    (each : ∀ (n i : Nat) w x, ws[n]? = some w → others[n]? = some x → decode i w = decode i x)
    (start : Nat) : decodeItems decode start ws = decodeItems decode start others := by
  induction ws generalizing others start with
  | nil =>
    rw [List.eq_nil_of_length_eq_zero length.symm]
  | cons w rest ih =>
    cases others with
    | nil => contradiction
    | cons x others =>
      have behind := ih (Nat.succ.inj length) (fun n i => each (n + 1) i) (start + 1)
      rw [decodeItems, decodeItems, each 0 start w x rfl rfl, behind]

theorem decodeFields_congr {d : Decoding} {schema : Schema}
    (each : ∀ field ∈ schema,
      decodeAt d (p ++ [.field field.1]) field.2 (Record.find? field.1 entries) =
        decodeAt d (p ++ [.field field.1]) field.2 (Record.find? field.1 others)) :
    decodeFields d p entries schema = decodeFields d p others schema := by
  induction schema with
  | nil => rfl
  | cons field rest ih =>
    obtain ⟨name, a⟩ := field
    obtain ⟨here, behind⟩ := List.forall_mem_cons.mp each
    rw [decodeFields, decodeFields, here, ih behind]

/-- Decoding does not look at entries that no schema names. -/
theorem decodeAt_of_agree {a : Attribute} (agree : a.Agree w x)
    (sound : a.Sound) (d : Decoding) (p : Path) : decodeAt d p a w = decodeAt d p a x := by
  induction agree generalizing p with
  | same => rfl
  | list each ih =>
    rw [decodeAt, decodeAt, decodeItems_congr (Attribute.Agree.length_eq each)]
    intro n i w x found other
    have same := ih n sound.item (p ++ [.index i])
    rwa [found, other] at same
  | map each ih =>
    have fields := decodeFields_congr (d := d) (p := p) fun field member =>
      ih field.1 field.2 (Record.find?_of_mem sound.level.distinct member) (sound.field member)
        (p ++ [.field field.1])
    rw [decodeAt, decodeAt, fields]

/-- A part of an item and the whole item come out of the same wire item, or neither does. At the top
and in every map that matches its attribute the part has what the store has, and the whole has
beside it an empty list or map for each one that the store lacks. Other entries make no
difference. -/
theorem Schema.decodePartialItem_decodeItem {schema : Schema} (accepted : schema.Accepted)
    (item : Item) (mode : DecodeMode) :
    (∀ e, schema.decodePartialItem item mode = .error e ↔
        schema.decodeItem item mode = .error e) ∧
      (∀ whole, schema.decodeItem item mode = .ok whole →
        ∃ part, schema.decodePartialItem item mode = .ok part ∧
          (Attribute.map schema).Fills (some (.m item)) (some part) (some whole)) ∧
      ∀ other, (Attribute.map schema).Agree (some (.m item)) (some (.m other)) →
        schema.decodeItem other mode = schema.decodeItem item mode ∧
          schema.decodePartialItem other mode = schema.decodePartialItem item mode := by
  have sound := Attribute.Sound.top accepted.wellFormed.toLevel
  have alike : AlikeBy
      (fun part whole => (Attribute.map schema).Fills (some (.m item)) (some part) (some whole))
      (schema.decodePartialItem item mode) (schema.decodeItem item mode) := by
    have alike := decodeAt_fills mode sound [] (some (.m item))
    rw [decodeAt_item, decodeAt_item] at alike
    exact alike.of_map
  refine ⟨fun e => alike.error_iff, ?_, ?_⟩
  · intro whole decoded
    rw [decoded] at alike
    cases parts : schema.decodePartialItem item mode with
    | error e =>
      rw [parts] at alike
      cases alike
    | ok part =>
      rw [parts] at alike
      cases alike with
      | ok fills => exact ⟨part, rfl, fills⟩
  · intro other agree
    have same : ∀ d, schema.decodeWith d other = schema.decodeWith d item := by
      intro d
      have same := decodeAt_of_agree agree sound d []
      rw [decodeAt_item, decodeAt_item] at same
      exact (map_some_inj.mp same).symm
    exact ⟨same ⟨mode, true⟩, same ⟨mode, false⟩⟩

namespace Museum

def room : Schema :=
  [("name", .scalar .string), ("works", .list (some (.scalar .string)))]

def schema : Schema :=
  [("id", .partitionKey .string), ("rooms", .list (some (.map room))),
    ("shop", .map [("open", .scalar .boolean)])]

def stored : Item :=
  [("id", .s "m"), ("rooms", .l [.m [("name", .s "hall")]])]

/-- The same item with a color and with lamps, of which the schema says nothing. -/
def cluttered : Item :=
  [("color", .s "red"), ("id", .s "m"), ("rooms", .l [.m [("lamps", .n "4"), ("name", .s "hall")]])]

def part : Value :=
  .map [("id", .string "m"), ("rooms", .list [.map [("name", .string "hall")]])]

def whole : Value :=
  .map [("id", .string "m"),
    ("rooms", .list [.map [("name", .string "hall"), ("works", .list [])]]), ("shop", .map [])]

theorem stored_agree_cluttered :
    (Attribute.map schema).Agree (some (.m stored)) (some (.m cluttered)) := by
  have hall : (Attribute.map room).Agree (some (.m [("name", .s "hall")]))
      (some (.m [("lamps", .n "4"), ("name", .s "hall")])) := by
    apply Attribute.Agree.map
    intro name a found
    have member := Record.mem_of_find? found
    simp only [room, List.mem_cons, Prod.mk.injEq, List.not_mem_nil, or_false] at member
    rcases member with ⟨rfl, rfl⟩ | ⟨rfl, rfl⟩ <;> exact .same _ _
  apply Attribute.Agree.map
  intro name a found
  have member := Record.mem_of_find? found
  simp only [schema, List.mem_cons, Prod.mk.injEq, List.not_mem_nil, or_false] at member
  rcases member with ⟨rfl, rfl⟩ | ⟨rfl, rfl⟩ | ⟨rfl, rfl⟩
  · exact .same _ _
  · refine .list fun n => ?_
    cases n with
    | zero => exact hall
    | succ n => exact .same _ none
  · exact .same _ _

theorem cluttered_decodes :
    schema.Accepted ∧
      (∃ e, schema.decodePartialItem [("shop", .s "x")] .strict = .error e ∧
        schema.decodeItem [("shop", .s "x")] .strict = .error e) ∧
      (Attribute.map schema).Fills (some (.m stored)) (some part) (some whole) ∧
      schema.decodeItem cluttered .strict = .ok whole ∧
      schema.decodePartialItem cluttered .strict = .ok part := by
  have accepted : schema.Accepted := .inr ⟨schema, rfl⟩
  obtain ⟨_, filled, ignored⟩ := Schema.decodePartialItem_decodeItem accepted stored .strict
  obtain ⟨failsAlike, _⟩ := Schema.decodePartialItem_decodeItem accepted [("shop", .s "x")] .strict
  have fills : (Attribute.map schema).Fills (some (.m stored)) (some part) (some whole) := by
    obtain ⟨_, decoded, fills⟩ := filled whole rfl
    cases decoded
    exact fills
  obtain ⟨sameWhole, samePart⟩ := ignored cluttered stored_agree_cluttered
  exact ⟨accepted, ⟨_, rfl, (failsAlike _).mp rfl⟩, fills, sameWhole, samePart⟩

end Museum

end ItemSchema
