import ItemSchema.Proofs.Codec.Encoding
import ItemSchema.Proofs.Schema.Resolution
import ItemSchema.Proofs.Value

/-! Encoding is local. What it makes of a value does not depend on where the value stands, and a
stored item has at each path what becomes of the value at that path alone. -/
namespace ItemSchema

/-- What a value holds at a path: fields of maps and items of lists. -/
def Value.at? (v : Value) : Path → Option Value
  | [] => some v
  | .field name :: rest =>
    match v with
    | .map fields => (Record.find? name fields).bind fun u => u.at? rest
    | _ => none
  | .index n :: rest =>
    match v with
    | .list items => items[n]?.bind fun u => u.at? rest
    | _ => none

/-- What a wire value holds at a path. -/
def Wire.at? (w : Wire) : Path → Option Wire
  | [] => some w
  | .field name :: rest =>
    match w with
    | .m fields => (Record.find? name fields).bind fun x => x.at? rest
    | _ => none
  | .index i :: rest =>
    match w with
    | .l items => items[i]?.bind fun x => x.at? rest
    | _ => none

theorem Value.at?_append (v : Value) (p q : Path) :
    v.at? (p ++ q) = (v.at? p).bind fun u => u.at? q := by
  induction p generalizing v with
  | nil => rfl
  | cons segment rest ih =>
    cases segment <;> cases v <;> simp [Value.at?, ih, Option.bind_assoc]

theorem Wire.at?_append (w : Wire) (p q : Path) :
    w.at? (p ++ q) = (w.at? p).bind fun x => x.at? q := by
  induction p generalizing w with
  | nil => rfl
  | cons segment rest ih =>
    cases segment <;> cases w <;> simp [Wire.at?, ih, Option.bind_assoc]

theorem encodeScalar_anywhere (encoded : encodeScalar p of v = .ok w) (q : Path) :
    encodeScalar q of v = .ok w := by
  have date : ∀ t, encodeDate p t = .ok w → encodeDate q t = .ok w := by
    intro t encoded
    unfold encodeDate at encoded ⊢
    split at encoded
    · rename_i millis
      rw [if_pos millis]
      exact encoded
    · contradiction
  cases of with
  | date =>
    cases v with
    | date t => exact date t encoded
    | string s =>
      cases read : Instant.ofText? s with
      | none => simp [encodeScalar, read] at encoded
      | some t =>
        simp only [encodeScalar, read] at encoded ⊢
        exact date t encoded
    | _ => simp [encodeScalar, mismatch] at encoded
  | _ =>
    cases v <;> simp [encodeScalar, mismatch] at encoded ⊢
    exact encoded

theorem encodeSet_anywhere (encoded : encodeSet p of v = .ok w) (q : Path) :
    encodeSet q of v = .ok w := by
  simp only [encodeSet_ok_iff, encodeMembers_ok_iff] at encoded ⊢
  exact encoded

theorem encodeScalar_ne_null (encoded : encodeScalar p of v = .ok w) : v ≠ .null := by
  rintro rfl
  cases of <;> simp [encodeScalar, mismatch] at encoded

theorem EncodesTo.encodeAt_eq (encodes : EncodesTo p a v w) : encodeAt p a v = .ok w := by
  cases encodes with
  | null notKey =>
    cases a with
    | partitionKey of | sortKey of => contradiction
    | _ => rfl
  | list items => rw [encodeAt, items, map_eq_ok]; exact ⟨_, rfl, rfl⟩
  | map entries => rw [encodeAt, entries, map_eq_ok]; exact ⟨_, rfl, rfl⟩
  | scalar typed content =>
    have notNull := encodeScalar_ne_null content
    cases a with
    | partitionKey k | sortKey k | scalar k =>
      cases typed
      unfold encodeAt
      cases v with
      | null => exact absurd rfl notNull
      | _ => exact content
    | _ => cases typed
  | set members =>
    obtain ⟨elements, given, _⟩ := encodeSet_ok_iff.mp members
    unfold encodeAt
    rcases given with rfl | rfl <;> exact members

theorem encodeItems_anywhere {items : List Value}
    (each : ∀ v ∈ items, ∀ p q w, encodeAt p item v = .ok w → encodeAt q item v = .ok w)
    (encoded : encodeItems p item i items = .ok ws) (q : Path) (j : Nat) :
    encodeItems q item j items = .ok ws := by
  induction items generalizing i j ws with
  | nil => exact encoded
  | cons v rest ih =>
    obtain ⟨here, later⟩ := List.forall_mem_cons.mp each
    simp only [encodeItems, bind_eq_ok, except_pure, Except.ok.injEq] at encoded ⊢
    obtain ⟨w, first, others, following, rfl⟩ := encoded
    exact ⟨w, here _ _ w first, others, ih later following (j + 1), rfl⟩

theorem encodeFields_anywhere {fields : List (String × Value)}
    (each : ∀ field ∈ fields, ∀ a p q w, encodeAt p a field.2 = .ok w →
      encodeAt q a field.2 = .ok w)
    (encoded : encodeFields p schema fields = .ok entries) (q : Path) :
    encodeFields q schema fields = .ok entries := by
  induction fields generalizing entries with
  | nil => exact encoded
  | cons field rest ih =>
    obtain ⟨name, v⟩ := field
    obtain ⟨here, later⟩ := List.forall_mem_cons.mp each
    rw [encodeFields] at encoded ⊢
    cases found : schema.get? name with
    | none => simp [found] at encoded
    | some a =>
      simp only [found, bind_eq_ok, except_pure, Except.ok.injEq] at encoded ⊢
      obtain ⟨w, first, others, following, rfl⟩ := encoded
      exact ⟨w, here a _ _ w first, others, ih later following, rfl⟩

/-- The path of a value only stands in errors. -/
theorem encodeAt_anywhere (encoded : encodeAt p a v = .ok w) (q : Path) :
    encodeAt q a v = .ok w := by
  induction v using Value.contents_induction generalizing a p q w with
  | step v ih =>
    apply EncodesTo.encodeAt_eq
    cases encodesTo_of_ok encoded with
    | null notKey => exact .null notKey
    | list items =>
      apply EncodesTo.list
      exact encodeItems_anywhere (fun v member _ q _ here => ih v member here q) items q 0
    | map entries =>
      apply EncodesTo.map
      exact encodeFields_anywhere
        (fun field member _ _ q _ here => ih field.2 (Value.mem_contents_map member) here q)
        entries q
    | scalar typed content => exact .scalar typed (encodeScalar_anywhere content q)
    | set members => exact .set (encodeSet_anywhere members q)

theorem getElem?_encodeItems {items : List Value} {ws : List Wire} {n : Nat}
    (encoded : encodeItems p item i items = .ok ws) (held : items[n]? = some v) :
    ∃ w, ws[n]? = some w ∧ ∃ q, encodeAt q item v = .ok w := by
  induction items generalizing i n ws with
  | nil => simp at held
  | cons u rest ih =>
    simp only [encodeItems, bind_eq_ok, except_pure, Except.ok.injEq] at encoded
    obtain ⟨w, first, others, following, rfl⟩ := encoded
    cases n with
    | zero =>
      cases held
      exact ⟨w, rfl, _, first⟩
    | succ n =>
      have later : rest[n]? = some v := held
      obtain ⟨x, stored, alone⟩ := ih following later
      exact ⟨x, stored, alone⟩

/-- The part of an encoded value at a path is the encoding of the part of the value there. -/
theorem encodeAt_at? (encoded : encodeAt q a v = .ok w)
    (followed : a.follow whole done p = .ok b) (held : v.at? p = some u) :
    ∃ x, w.at? p = some x ∧ encodeAt p b u = .ok x := by
  suffices ∃ x, w.at? p = some x ∧ ∃ r, encodeAt r b u = .ok x by
    obtain ⟨x, there, r, alone⟩ := this
    exact ⟨x, there, encodeAt_anywhere alone p⟩
  induction p generalizing a v w q done with
  | nil =>
    cases followed
    cases held
    exact ⟨w, rfl, q, encoded⟩
  | cons segment rest ih =>
    obtain ⟨next, below, further⟩ := Attribute.follow_cons_ok_iff.mp followed
    cases below with
    | @field fields name _ found =>
      cases v with
      | map values =>
        obtain ⟨v, present, inside⟩ := Option.bind_eq_some_iff.mp held
        obtain ⟨ws, entries, rfl⟩ := map_eq_ok.mp (encoded : Wire.m <$> _ = _)
        have look := find?_encodeFields entries name
        simp only [present] at look
        obtain ⟨a, w, known, content, stored⟩ := look
        cases known.symm.trans found
        obtain ⟨x, there, alone⟩ := ih content further inside
        exact ⟨x, by simp [Wire.at?, stored, there], alone⟩
      | _ => contradiction
    | index item n =>
      cases v with
      | list items =>
        obtain ⟨v, present, inside⟩ := Option.bind_eq_some_iff.mp held
        obtain ⟨ws, encodedItems, rfl⟩ := map_eq_ok.mp (encoded : Wire.l <$> _ = _)
        obtain ⟨w, stored, r, content⟩ := getElem?_encodeItems encodedItems present
        obtain ⟨x, there, alone⟩ := ih content further inside
        exact ⟨x, by simp [Wire.at?, stored, there], alone⟩
      | _ => contradiction

/-- An item is encoded as the value of a map with its schema. -/
theorem Schema.encodeAt_of_encodeItem {schema : Schema}
    (encoded : schema.encodeItem v = .ok item) : encodeAt [] (.map schema) v = .ok (.m item) := by
  cases v with
  | map fields => exact map_eq_ok.mpr ⟨item, encoded, rfl⟩
  | _ => simp [encodeItem, mismatch] at encoded

end ItemSchema
