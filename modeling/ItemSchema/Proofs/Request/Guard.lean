import ItemSchema.Proofs.Expression.Evaluation
import ItemSchema.Proofs.Request.Keys
import ItemSchema.Proofs.Request.Latest

/-! The condition of a put. A put that must not replace an item asks for the absence of the
partition key, and nothing that the caller puts beside this can make up for it. -/
namespace ItemSchema

/-- What comparisons mean on stored items. -/
abbrev Reading := Item → Path → Operator → List Wire → Bool

/-- An attribute is read as missing only where it is. -/
def Reading.SeesAbsence (reading : Reading) : Prop :=
  ∀ stored name, reading stored [.field name] .notExists [] = true →
    Record.find? name stored = none

namespace PutRequest

/-- The condition of the request, read back, is met exactly where the condition of the caller is. -/
def Asks (r : PutRequest) : Option Condition → Prop
  | none => r.condition = none
  | some own => ∃ text c, r.condition = some text ∧ r.aliases.condition? text = some c ∧
      ∀ (reading : Reading) stored, c.eval (reading stored) = own.eval (reading stored)

/-- The condition of the request, read back, is met exactly where the named attribute is missing and
the condition of the caller is met, if there is one. -/
def Guards (r : PutRequest) (name : String) (own : Option Condition) : Prop :=
  ∃ text c, r.condition = some text ∧ r.aliases.condition? text = some c ∧
    ∀ (reading : Reading) stored,
      (c.eval (reading stored) = true ↔
        reading stored [.field name] .notExists [] = true ∧
          ∀ d ∈ own, d.eval (reading stored) = true) ∧
      (reading.SeesAbsence → c.eval (reading stored) = true → Record.find? name stored = none)

end PutRequest

def PutCall.condition? : PutCall → Option ConditionDraft
  | .write (.condition draft) => some draft
  | _ => none

theorem PutCall.eq_throwIfExists {call : PutCall} (about : call.option = .throwIfExists) :
    call = .throwIfExists := by
  cases call with
  | throwIfExists => rfl
  | item => contradiction
  | write call => cases call <;> contradiction

theorem PutCall.eq_condition {call : PutCall} (about : call.option = .condition) :
    ∃ draft, call = .write (.condition draft) := by
  cases call with
  | item | throwIfExists => contradiction
  | write call =>
    cases call with
    | condition draft => exact ⟨draft, rfl⟩
    | _ => contradiction

/-- The condition that counts: that of the last call for one. -/
def PutCall.lastCondition? (calls : List PutCall) : Option ConditionDraft :=
  (lastCall PutCall.option calls .condition).bind PutCall.condition?

namespace Put

variable {table : Table} {put : Put}

theorem request_compiled (built : put.request table = .ok r) :
    ∃ t, Aliases.empty.compileOptional table.config.stems (put.condition table) =
        (t, .ok r.condition) ∧ r.aliases = t.tables table.config.stems := by
  rw [request] at built
  cases given : put.item with
  | none =>
    rw [given] at built
    contradiction
  | some item =>
    rw [given] at built
    obtain ⟨write, written, same⟩ := bind_eq_ok.mp built
    cases same
    rw [Write.request] at written
    rcases compiled : Aliases.empty.compileOptional table.config.stems (put.condition table) with
      ⟨t, condition⟩
    simp only [compiled, bind_eq_ok, except_pure, Except.ok.injEq] at written
    obtain ⟨text, rfl, rfl⟩ := written
    exact ⟨t, rfl, rfl⟩

/-- A request has a condition exactly if its put has one, and it says the same. -/
theorem request_asks (rooted : ∀ c ∈ put.condition table, c.Rooted)
    (built : put.request table = .ok r) : r.Asks (put.condition table) := by
  obtain ⟨t, compiled, tables⟩ := request_compiled built
  cases written : r.condition with
  | none =>
    rw [written] at compiled
    cases asked : put.condition table with
    | none => exact written
    | some c =>
      rw [asked] at compiled
      obtain ⟨_, missing⟩ := Prod.mk.inj compiled
      obtain ⟨_, _, none⟩ := map_eq_ok.mp missing
      contradiction
  | some text =>
    rw [written] at compiled
    obtain ⟨c, asked, read⟩ :=
      Aliases.condition?_compileOptional table.admissible rooted compiled .refl
    rw [asked]
    refine ⟨text, c.grouped, written, by rw [tables, read], ?_⟩
    intro reading stored
    exact ConditionTree.eval_grouped _ c

theorem absent_rooted (table : Table) : (absent table).Rooted :=
  .comparison ..

theorem condition_rooted (rooted : ∀ c ∈ put.write.condition, c.Rooted) :
    ∀ c ∈ put.condition table, c.Rooted := by
  rw [condition]
  split
  · cases own : put.write.condition with
    | none => simp [absent_rooted]
    | some c =>
      have both : ∀ d ∈ [c, absent table], d.Rooted := by simp [absent_rooted, rooted c own]
      simpa using ConditionTree.Rooted.logical .and both
  · exact rooted

/-- The conjunction with the absence of the key, in whatever way the condition of the caller is
joined itself. -/
theorem eval_condition (table : Table) (new : put.throwIfExists = true) :
    ∃ c, put.condition table = some c ∧ ∀ meaning, c.eval meaning = true ↔
      meaning [.field table.partitionKey] .notExists [] = true ∧
        ∀ d ∈ put.write.condition, d.eval meaning = true := by
  rw [condition, if_pos new]
  cases put.write.condition with
  | none => exact ⟨absent table, rfl, fun meaning => by simp [absent, ConditionTree.eval]⟩
  | some own =>
    refine ⟨_, rfl, fun meaning => ?_⟩
    rw [ConditionTree.eval_logical]
    simp [absent, ConditionTree.eval, LogicalOperator.eval, and_comm]

theorem request_guards (rooted : ∀ c ∈ put.write.condition, c.Rooted)
    (new : put.throwIfExists = true) (built : put.request table = .ok r) :
    r.Guards table.partitionKey put.write.condition := by
  obtain ⟨whole, given, met⟩ := eval_condition table new
  have asks := request_asks (condition_rooted rooted) built
  rw [given] at asks
  obtain ⟨text, c, written, read, same⟩ := asks
  refine ⟨text, c, written, read, fun reading stored => ?_⟩
  rw [same reading stored, met]
  exact ⟨.rfl, fun sees holds => sees stored _ holds.1⟩

theorem request_unguarded (rooted : ∀ c ∈ put.write.condition, c.Rooted)
    (any : put.throwIfExists = false) (built : put.request table = .ok r) :
    r.Asks put.write.condition := by
  have asks := request_asks (condition_rooted rooted) built
  rwa [condition, if_neg (by simp [any])] at asks

/-- One call is enough, wherever it stands. -/
theorem final_throwIfExists {calls : List PutCall}
    (faultless : callFaults (add table) (empty table) calls = []) :
    (final table calls).throwIfExists = true ↔ PutCall.throwIfExists ∈ calls := by
  change (latest (add table) (empty table) PutCall.option calls .throwIfExists).throwIfExists =
    true ↔ _
  cases last : lastCall PutCall.option calls .throwIfExists with
  | none =>
    rw [lastCall, List.getLast?_eq_none_iff, List.filter_eq_nil_iff] at last
    have unasked : PutCall.throwIfExists ∉ calls := fun member => last _ member rfl
    simp [latest, lastCall, List.filter_eq_nil_iff.mpr last, empty, unasked]
  | some call =>
    obtain ⟨member, about⟩ := List.mem_filter.mp (List.mem_of_getLast? last)
    obtain rfl := PutCall.eq_throwIfExists (of_decide_eq_true about)
    have kept : Except.ok { empty table with throwIfExists := true } = _ :=
      latest_of_last faultless last
    simp [← Except.ok.inj kept, member]

/-- The last condition of the caller's is the one that was kept. -/
theorem final_condition {calls : List PutCall}
    (faultless : callFaults (add table) (empty table) calls = []) :
    (PutCall.lastCondition? calls).mapM (table.view .full).condition =
      .ok (final table calls).write.condition := by
  change _ = Except.ok
    (latest (add table) (empty table) PutCall.option calls .condition).write.condition
  rw [PutCall.lastCondition?]
  cases last : lastCall PutCall.option calls .condition with
  | none =>
    rw [latest, last]
    rfl
  | some call =>
    obtain ⟨_, about⟩ := List.mem_filter.mp (List.mem_of_getLast? last)
    obtain ⟨draft, rfl⟩ := PutCall.eq_condition (of_decide_eq_true about)
    have kept := latest_of_last faultless last
    obtain ⟨write, written, kept⟩ := bind_eq_ok.mp kept
    obtain ⟨c, checked, same⟩ := bind_eq_ok.mp written
    rw [← Except.ok.inj kept, ← Except.ok.inj same]
    change some <$> (table.view .full).condition draft = _
    rw [checked]
    rfl

end Put

/-- A put that must not replace an item is done only where the partition key is missing and the last
condition of the caller's is met, however that is joined and in whatever order the calls come. Any
other put is done where that condition is met, and without one it asks for nothing. -/
theorem Table.put_guarded (table : Table) :
    (∀ calls r, table.put calls = .ok r → ∃ own,
      (PutCall.lastCondition? calls).mapM (table.view .full).condition = .ok own ∧
        (PutCall.throwIfExists ∈ calls → r.Guards table.partitionKey own) ∧
        (PutCall.throwIfExists ∉ calls → r.Asks own)) ∧
      ∀ (put : Put) r, (∀ c ∈ put.write.condition, c.Rooted) → put.request table = .ok r →
        (put.throwIfExists = true → r.Guards table.partitionKey put.write.condition) ∧
        (put.throwIfExists = false → r.Asks put.write.condition) := by
  constructor
  · intro calls r built
    obtain ⟨put, taken, made⟩ := bind_eq_ok.mp built
    have rooted : ∀ c ∈ put.write.condition, c.Rooted := fun c own => (Put.built taken c own).rooted
    rw [Put.foldlM_add, firstFault_ok_iff] at taken
    obtain ⟨faultless, rfl⟩ := taken
    have new := Put.final_throwIfExists faultless
    refine ⟨_, Put.final_condition faultless, fun asked => ?_, fun unasked => ?_⟩
    · exact Put.request_guards rooted (new.mpr asked) made
    · have any := Bool.eq_false_iff.mpr fun set => unasked (new.mp set)
      exact Put.request_unguarded rooted any made
  · intro put r rooted made
    exact ⟨fun new => Put.request_guards rooted new made,
      fun any => Put.request_unguarded rooted any made⟩

namespace Cinema

def schema : Schema :=
  [("row", .scalar .number), ("seat", .partitionKey .string), ("sold", .scalar .boolean)]

def table : Table :=
  ⟨.ofName "cinema", schema, rfl, rfl⟩

def free : ConditionDraft :=
  .comparison "sold" (.compare .eq) (.bool false)

/-- The first condition does not count. -/
def sales : List PutCall :=
  [.write (.condition (.absent "row")), .throwIfExists, .item (.map [("seat", .string "A7")]),
    .write (.condition (.logical .or [.present "row", .logical .not [free]])),
    .write (.capacity .total)]

def text : String :=
  "((attribute_exists(#f0) OR (NOT #f1 = :v0)) AND attribute_not_exists(#f2))"

/-- Put together by hand, with a group of one condition. -/
def held : Condition :=
  .logical .or [.comparison [.field "row"] .isIn [.n "1", .n "2"]]

def holding : Put :=
  ⟨some [("seat", .s "B2")], false, { Write.empty table with condition := some held }⟩

theorem sales_guarded :
    (∃ r own, table.put sales = .ok r ∧ r.condition = some text ∧
      (PutCall.lastCondition? sales).mapM (table.view .full).condition = .ok own ∧
      own.isSome = true ∧ r.Guards "seat" own) ∧
    (∃ r, table.put [.item (.map [("seat", .string "A7")])] = .ok r ∧ r.Asks none) ∧
    ∃ r, holding.request table = .ok r ∧ r.condition = some "(#f0 IN (:v0, :v1))" ∧
      r.Asks (some held) := by
  obtain ⟨ofCalls, ofPuts⟩ := Table.put_guarded table
  refine ⟨?_, ?_, ?_⟩
  · have built : (fun r : PutRequest => r.condition) <$> table.put sales = .ok (some text) := by
      decide +kernel
    obtain ⟨r, built, written⟩ := map_eq_ok.mp built
    obtain ⟨own, last, guards, _⟩ := ofCalls sales r built
    have given : Option.isSome <$> (PutCall.lastCondition? sales).mapM
        (table.view .full).condition = .ok true := by rfl
    rw [last] at given
    exact ⟨r, own, built, written, last, Except.ok.inj given, guards (by simp [sales])⟩
  · obtain ⟨r, built⟩ : ∃ r, table.put [.item (.map [("seat", .string "A7")])] = .ok r :=
      ⟨_, rfl⟩
    obtain ⟨own, last, _, asks⟩ := ofCalls _ r built
    cases last
    exact ⟨r, built, asks (by simp)⟩
  · have built : (fun r : PutRequest => r.condition) <$> holding.request table =
        .ok (some "(#f0 IN (:v0, :v1))") := by decide +kernel
    obtain ⟨r, built, written⟩ := map_eq_ok.mp built
    have rooted : ∀ c ∈ holding.write.condition, c.Rooted := by
      intro c own
      cases own
      exact .logical .or (List.forall_mem_singleton.mpr (.comparison ..))
    exact ⟨r, built, written, (ofPuts holding r rooted built).2 rfl⟩

end Cinema

end ItemSchema
