import ItemSchema.Proofs.Request.Latest
import ItemSchema.Proofs.Table.PrimaryKey

/-! The items that requests are about. An item is stored under its key attributes, and requests that
are given these attributes name the same key. -/
namespace ItemSchema

/-- The key of the item that a request is about. A put has it in the item. -/
def Request.key? : Request → Option Item
  | .get r => some r.key
  | .update r => some r.key
  | .delete r => some r.key
  | .put _ | .query _ | .scan _ => none

def PutCall.item? : PutCall → Option Value
  | .item v => some v
  | _ => none

def GetCall.key? : GetCall → Option Value
  | .key v => some v
  | _ => none

def UpdateCall.key? : UpdateCall → Option Value
  | .key v => some v
  | _ => none

def DeleteCall.key? : DeleteCall → Option Value
  | .key v => some v
  | _ => none

/-- The key that counts: that of the last call for one. -/
def RequestCalls.key? : RequestCalls → Option Value
  | .get calls => (lastCall GetCall.option calls .key).bind GetCall.key?
  | .update calls => (lastCall UpdateCall.option calls .key).bind UpdateCall.key?
  | .delete calls => (lastCall DeleteCall.option calls .key).bind DeleteCall.key?
  | .put _ | .query _ | .scan _ => none

/-- A slot holds what the last call for it was given, encoded. -/
theorem slot_of_last {σ τ υ κ ι ε : Type} [DecidableEq ι] {add : σ → κ → Except ε σ} {start : σ}
    {option : κ → ι} {o : ι} {calls : List κ} {v : υ} (slot : σ → Option τ) (given? : κ → Option υ)
    (encode : υ → Except ε τ)
    (sets : ∀ call v state, given? call = some v → add start call = .ok state →
      ∃ x, encode v = .ok x ∧ slot state = some x)
    (faultless : callFaults add start calls = [])
    (last : (lastCall option calls o).bind given? = some v) :
    ∃ x, encode v = .ok x ∧ slot (latest add start option calls o) = some x := by
  obtain ⟨call, last, given⟩ := Option.bind_eq_some_iff.mp last
  exact sets call v _ given (latest_of_last faultless last)

section

variable {table : Table}

theorem Put.final_item_of_last {calls : List PutCall}
    (faultless : callFaults (add table) (empty table) calls = [])
    (last : (lastCall PutCall.option calls .item).bind PutCall.item? = some v) :
    ∃ item, encodeItem table v = .ok item ∧ (final table calls).item = some item := by
  refine slot_of_last Put.item PutCall.item? (encodeItem table) ?_ faultless last
  intro call v put given made
  cases call with
  | item u =>
    cases given
    obtain ⟨item, encoded, same⟩ := bind_eq_ok.mp made
    cases same
    exact ⟨item, encoded, rfl⟩
  | throwIfExists | write => contradiction

theorem Get.final_key_of_last {calls : List GetCall}
    (faultless : callFaults (add table) (empty table) calls = [])
    (last : (lastCall GetCall.option calls .key).bind GetCall.key? = some v) :
    ∃ key, table.encodeKey v = .ok key ∧ (final table calls).key = some key := by
  refine slot_of_last Get.key GetCall.key? table.encodeKey ?_ faultless last
  intro call v get given made
  cases call with
  | key u =>
    cases given
    obtain ⟨key, encoded, same⟩ := bind_eq_ok.mp made
    cases same
    exact ⟨key, encoded, rfl⟩
  | projection | capacity => contradiction

theorem Update.final_key_of_last {calls : List UpdateCall}
    (faultless : callFaults (add table) (empty table) calls = [])
    (last : (lastCall UpdateCall.option calls .key).bind UpdateCall.key? = some v) :
    ∃ key, table.encodeKey v = .ok key ∧ (final table calls).key = some key := by
  refine slot_of_last Update.key UpdateCall.key? table.encodeKey ?_ faultless last
  intro call v update given made
  cases call with
  | key u =>
    cases given
    obtain ⟨key, encoded, same⟩ := bind_eq_ok.mp made
    cases same
    exact ⟨key, encoded, rfl⟩
  | set | remove | delete | write => contradiction

theorem Delete.final_key_of_last {calls : List DeleteCall}
    (faultless : callFaults (add table) (empty table) calls = [])
    (last : (lastCall DeleteCall.option calls .key).bind DeleteCall.key? = some v) :
    ∃ key, table.encodeKey v = .ok key ∧ (final table calls).key = some key := by
  refine slot_of_last Delete.key DeleteCall.key? table.encodeKey ?_ faultless last
  intro call v delete given made
  cases call with
  | key u =>
    cases given
    obtain ⟨key, encoded, same⟩ := bind_eq_ok.mp made
    cases same
    exact ⟨key, encoded, rfl⟩
  | write => contradiction

/-- A put request has the item of the last call for one. -/
theorem Table.put_item (built : table.put calls = .ok r)
    (last : (lastCall PutCall.option calls .item).bind PutCall.item? = some v) :
    Put.encodeItem table v = .ok r.item := by
  obtain ⟨put, taken, made⟩ := bind_eq_ok.mp built
  rw [Put.foldlM_add, firstFault_ok_iff] at taken
  obtain ⟨faultless, rfl⟩ := taken
  obtain ⟨item, encoded, held⟩ := Put.final_item_of_last faultless last
  rw [Put.request, held] at made
  obtain ⟨write, _, same⟩ := bind_eq_ok.mp made
  cases same
  exact encoded

/-- A request by key has the key of the last call for one. -/
theorem Table.request_key {calls : RequestCalls} (built : table.request calls = .ok r)
    (last : calls.key? = some v) : ∃ key, r.key? = some key ∧ table.encodeKey v = .ok key := by
  cases calls with
  | get calls =>
    obtain ⟨request, made, rfl⟩ := map_eq_ok.mp built
    obtain ⟨get, taken, made⟩ := bind_eq_ok.mp made
    rw [Get.foldlM_add, firstFault_ok_iff] at taken
    obtain ⟨faultless, rfl⟩ := taken
    obtain ⟨key, encoded, held⟩ := Get.final_key_of_last faultless last
    rw [Get.request, held] at made
    cases made
    exact ⟨key, rfl, encoded⟩
  | update calls =>
    obtain ⟨request, made, rfl⟩ := map_eq_ok.mp built
    obtain ⟨update, taken, made⟩ := bind_eq_ok.mp made
    rw [Update.foldlM_add, firstFault_ok_iff] at taken
    obtain ⟨faultless, rfl⟩ := taken
    obtain ⟨key, encoded, held⟩ := Update.final_key_of_last faultless last
    rw [Update.request, held] at made
    dsimp only at made
    split at made
    · contradiction
    · simp only [except_pure, bind_eq_ok, Except.ok.injEq] at made
      obtain ⟨write, _, rfl⟩ := made
      exact ⟨key, rfl, encoded⟩
  | delete calls =>
    obtain ⟨request, made, rfl⟩ := map_eq_ok.mp built
    obtain ⟨delete, taken, made⟩ := bind_eq_ok.mp made
    rw [Delete.foldlM_add, firstFault_ok_iff] at taken
    obtain ⟨faultless, rfl⟩ := taken
    obtain ⟨key, encoded, held⟩ := Delete.final_key_of_last faultless last
    rw [Delete.request, held] at made
    obtain ⟨write, _, same⟩ := bind_eq_ok.mp made
    cases same
    exact ⟨key, rfl, encoded⟩
  | put | query | scan => contradiction

/-- The key under which an item is stored is the one under which it is fetched and changed: its key
attributes are all stored, with the tags of their types, and are encoded by themselves in the same
way. What is encoded as a key is exactly a map of the key attributes, and it is encoded like an item
that has nothing else. -/
theorem Table.key_exact (table : Table) (accepted : table.schema.Accepted) :
    (∀ v item, Put.encodeItem table v = .ok item → ∃ fields, v = .map fields ∧
        (∀ name a, table.schema.get? name = some a → a.isKey = true →
          ∃ w, Record.find? name item = some w ∧ w.tag = a.tag ∧ w ≠ .null) ∧
        (Record.Sorted fields →
          table.encodeKey (.map (table.schema.keysOf fields)) = .ok (table.schema.keysOf item))) ∧
      (∀ k, (∃ key, table.encodeKey k = .ok key) ↔
        ∃ fields, k = .map fields ∧ table.schema.KeyFields fields) ∧
      (∀ fields key, Record.Sorted fields → table.encodeKey (.map fields) = .ok key →
        table.encodeItem (.map fields) = .ok key) ∧
      ∀ puts stored v, table.put puts = .ok stored →
        (lastCall PutCall.option puts .item).bind PutCall.item? = some v →
          Put.encodeItem table v = .ok stored.item ∧
          ∀ fields, v = .map fields → Record.Sorted fields →
            ∀ (calls : RequestCalls) r, table.request calls = .ok r →
              calls.key? = some (.map (table.schema.keysOf fields)) →
                r.key? = some (table.schema.keysOf stored.item) := by
  have wellFormed := accepted.wellFormed
  refine ⟨?_, fun _ => exists_encodeKey_ok_iff wellFormed,
    fun _ _ => encodeItem_of_encodeKey wellFormed, ?_⟩
  · intro v item stored
    obtain ⟨fields, rfl⟩ := map_of_encodeItem stored
    refine ⟨fields, rfl, ?_, fun sorted => encodeKey_of_encodeItem wellFormed sorted stored⟩
    intro name a found key
    obtain ⟨u, w, _, alone, held⟩ := find?_key wellFormed stored found key
    exact ⟨w, held, key_tag alone key⟩
  · intro puts stored v put last
    have accepts := put_item put last
    refine ⟨accepts, ?_⟩
    rintro fields rfl sorted calls r built asked
    have encoded := encodeKey_of_encodeItem wellFormed sorted accepts
    obtain ⟨key, named, again⟩ := request_key built asked
    cases encoded.symm.trans again
    exact named

end

namespace Orbit

/-- The sort key is defined first. -/
def schema : Schema :=
  [("at", .sortKey .number), ("body", .scalar .string), ("live", .partitionKey .boolean)]

def table : Table :=
  ⟨.ofName "orbits", schema, rfl, rfl⟩

def fields : List (String × Value) :=
  [("at", .number ⟨false, 150, 2, by decide, by decide⟩), ("body", .string "moon"),
    ("live", .bool true)]

def puts : List PutCall :=
  [.throwIfExists, .item (.map fields), .write (.metrics .size)]

/-- Another key is given first. -/
def fetch : RequestCalls :=
  .get [.key (.map [("at", .number ⟨true, 150, 2, by decide, by decide⟩), ("live", .bool false)]),
    .projection ["body"], .key (.map (schema.keysOf fields))]

def key : Item :=
  [("at", .n "1.50"), ("live", .bool true)]

/-- A table without a sort key. -/
def moons : Table :=
  ⟨.ofName "moons", [("age", .scalar .number), ("name", .partitionKey .string)], rfl, rfl⟩

theorem key_shared :
    (∃ stored r, table.put puts = .ok stored ∧ schema.keysOf stored.item = key ∧
      table.request fetch = .ok r ∧ r.key? = some key) ∧
      schema.KeyFields (schema.keysOf fields) ∧
      table.encodeItem (.map (schema.keysOf fields)) = .ok key ∧
      ¬∃ k, moons.encodeKey (.map [("name", .null)]) = .ok k := by
  obtain ⟨stores, exact, alone, addressed⟩ := Table.key_exact table (.inr ⟨schema, rfl⟩)
  have sorted : Record.Sorted fields := by
    unfold Record.Sorted
    decide
  have sortedKey : Record.Sorted (schema.keysOf fields) := sorted.filter _
  obtain ⟨item, accepted, itself⟩ : ∃ item, Put.encodeItem table (.map fields) = .ok item ∧
      schema.keysOf item = key := ⟨_, rfl, rfl⟩
  obtain ⟨_, same, _, encoded⟩ := stores (.map fields) item accepted
  cases same
  have encoded := itself ▸ encoded sorted
  obtain ⟨_, same, keyFields⟩ := (exact _).mp ⟨key, encoded⟩
  cases same
  refine ⟨?_, keyFields, alone _ key sortedKey encoded, ?_⟩
  · obtain ⟨stored, put, named⟩ : ∃ stored, table.put puts = .ok stored ∧
        schema.keysOf stored.item = key := ⟨_, rfl, rfl⟩
    obtain ⟨r, built⟩ : ∃ r, table.request fetch = .ok r := ⟨_, rfl⟩
    refine ⟨stored, r, put, named, built, ?_⟩
    rw [← named]
    exact (addressed puts stored _ put rfl).2 fields rfl sorted fetch r built rfl
  · rw [(Table.key_exact moons (.inr ⟨moons.schema, rfl⟩)).2.1]
    rintro ⟨_, same, keyFields⟩
    cases same
    exact (keyFields.typed "name" _ _ rfl rfl).1 rfl

end Orbit

end ItemSchema
