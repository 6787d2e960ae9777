import ItemSchema.Proofs.Codec.FirstFault
import ItemSchema.Proofs.Request.Outcome

/-! Lists whose items have no attribute. An accepted schema has none, so nothing that is done with
it fails for want of such an attribute. -/
namespace ItemSchema

/-- Whether a list without the attribute of its items was met. -/
def Error.isMissingItemSchema : Error → Bool
  | .missingItemSchema _ => true
  | _ => false

/-- The step does not fail for want of the attribute of the items of a list. -/
abbrev FindsItems (x : Except Error α) : Prop :=
  Avoids Error.isMissingItemSchema x

theorem EncodeFault.isMissingItemSchema (fault : EncodeFault p e) :
    e.isMissingItemSchema = false := by
  cases fault <;> rfl

theorem DecodeFault.isMissingItemSchema (fault : DecodeFault p expected w e) :
    e.isMissingItemSchema = false := by
  cases fault <;> rfl

namespace Attribute.Sound

theorem child_findsItems {a : Attribute} (sound : a.Sound) (whole done : Path)
    (segment : Segment String) : FindsItems (a.child whole done segment) := by
  unfold child
  split
  · split
    · exact .ok _
    · exact .error rfl
  · exact .ok _
  · exact absurd sound not_bare
  · exact .error rfl

theorem follow_findsItems {a : Attribute} (sound : a.Sound) (whole done p : Path) :
    FindsItems (a.follow whole done p) := by
  induction p generalizing a done with
  | nil => exact .ok a
  | cons segment rest ih =>
    rw [Attribute.follow]
    refine (sound.child_findsItems whole done segment).bind fun next down => ?_
    exact ih (sound.below (child_ok_iff.mp down)) _

theorem encodeAt_findsItems {a : Attribute} (sound : a.Sound) (q : Path) (v : Value) :
    FindsItems (encodeAt q a v) := by
  induction v using Value.contents_induction generalizing a q with
  | step v ih =>
    intro e failed
    cases encodeError_of_error failed with
    | node _ fault => exact fault.isMissingItemSchema
    | bare => exact absurd sound not_bare
    | item found fails _ => exact ih _ (List.mem_of_getElem? found) sound.item _ e fails
    | unknown => rfl
    | @field name a u _ front back schema known fails _ =>
      have member : u ∈ (Value.map (front ++ (name, u) :: back)).contents :=
        Value.mem_contents_map List.mem_append_cons_self
      exact ih u member (sound.below (.field known)) _ e fails

theorem decodeAt_findsItems {a : Attribute} (sound : a.Sound) (d : Decoding) (q : Path)
    (w : Option Wire) : FindsItems (decodeAt d q a w) := by
  intro e failed
  obtain ⟨w, rfl, _⟩ := decodeAt_error_present failed
  obtain ⟨p, b, x, failure⟩ := decodeAt_failure sound failed
  exact failure.fault.isMissingItemSchema

end Attribute.Sound

theorem encodeScalar_findsItems (p : Path) (of : ScalarType) (v : Value) :
    FindsItems (encodeScalar p of v) :=
  fun _ failed => (encodeScalar_fault failed).isMissingItemSchema

theorem encodeMember_findsItems (p : Path) (of : SetType) (v : Value) :
    FindsItems (encodeMember p of v) :=
  fun _ failed => (encodeMember_fault failed).isMissingItemSchema

section

variable {a : Attribute} (sound : a.Sound) (p : Path) (v : Value)
include sound

theorem encodeBounds_findsItems : FindsItems (encodeBounds p a v) := by
  unfold encodeBounds
  split
  · exact .error rfl
  · split
    · exact Avoids.mapM (fun bound => sound.encodeAt_findsItems p bound) _
    · exact .error rfl

theorem encodeCandidates_findsItems : FindsItems (encodeCandidates p a v) := by
  unfold encodeCandidates
  split
  · exact .error rfl
  · split
    · exact Avoids.mapM (fun candidate => sound.encodeAt_findsItems p candidate) _
    · exact .error rfl

theorem encodeContained_findsItems : FindsItems (encodeContained p a v) := by
  unfold encodeContained
  split
  · exact encodeMember_findsItems p _ v
  · exact sound.item.encodeAt_findsItems p v
  · exact absurd sound Attribute.Sound.not_bare
  · exact encodeScalar_findsItems p .string v

omit sound in
theorem encodeTagName_findsItems : FindsItems (encodeTagName p v) := by
  unfold encodeTagName
  split
  · split
    · exact .ok _
    · exact .error rfl
  · exact .error rfl

omit sound in
theorem encodeSize_findsItems : FindsItems (encodeSize p v) := by
  unfold encodeSize
  split
  · exact encodeScalar_findsItems p .number _
  · exact encodeScalar_findsItems p .bigint _
  · exact .error rfl

theorem encodeOperands_findsItems (operator : Operator) :
    FindsItems (encodeOperands p a operator v) := by
  cases operator with
  | compare => exact (sound.encodeAt_findsItems p v).map _
  | beginsWith =>
    cases v with
    | string => exact .ok _
    | _ => exact .error rfl
  | between => exact encodeBounds_findsItems sound p v
  | isIn => exact encodeCandidates_findsItems sound p v
  | «exists» | notExists =>
    rw [encodeOperands]
    split
    · exact .ok _
    · exact .error rfl
  | attributeType => exact (encodeTagName_findsItems p v).map _
  | contains => exact (encodeContained_findsItems sound p v).map _
  | size => exact (encodeSize_findsItems p v).map _

end

theorem Path.parse_findsItems (text : String) : FindsItems (Path.parse text) := by
  unfold Path.parse
  cases Path.ofText text with
  | ok p => exact .ok p
  | error fault => exact .error rfl

theorem PathRef.toPath_findsItems (given : PathRef) : FindsItems given.toPath := by
  cases given with
  | text spelling => exact Path.parse_findsItems spelling
  | path p => exact .ok p

theorem Operator.parse_findsItems (text : String) : FindsItems (Operator.parse text) := by
  unfold Operator.parse
  split
  · exact .ok _
  · exact .error rfl

theorem WireTag.parse_findsItems (text : String) : FindsItems (WireTag.parse text) := by
  unfold WireTag.parse
  split
  · exact .ok _
  · exact .error rfl

theorem Condition.join_findsItems (operator : LogicalOperator) (children : List Condition) :
    FindsItems (Condition.join operator children) := by
  unfold Condition.join
  split
  · exact .ok _
  · exact .error rfl

theorem Schema.Level.sound_of_resolve {schema : Schema} (level : schema.Level true)
    (resolved : schema.resolve p = .ok a) : a.Sound := by
  obtain ⟨name, rest, b, rfl, found, followed⟩ := resolve_ok_iff.mp resolved
  have sound := (Attribute.Sound.top level).below (.field found)
  exact sound.follow followed

theorem Schema.Level.resolve_findsItems {schema : Schema} (level : schema.Level true) (p : Path) :
    FindsItems (schema.resolve p) := by
  cases p with
  | nil => exact .error rfl
  | cons segment rest => exact (Attribute.Sound.top level).follow_findsItems _ _ _

theorem Schema.Level.encodeItem_findsItems {schema : Schema} (level : schema.Level true)
    (v : Value) : FindsItems (schema.encodeItem v) := by
  cases v with
  | map fields =>
    intro e failed
    exact (Attribute.Sound.top level).encodeAt_findsItems [] (.map fields) e
      (map_eq_error.mpr failed)
  | _ => exact .error rfl

theorem Schema.Level.decodeWith_findsItems {schema : Schema} (level : schema.Level true)
    (d : Decoding) (item : Item) : FindsItems (schema.decodeWith d item) :=
  fun e failed => (Attribute.Sound.top level).decodeAt_findsItems d [] _ e
    (decodeAt_of_decodeWith_error failed)

namespace SchemaView

section

variable {view : SchemaView} (level : view.schema.Level true)
include level

theorem sound_of_resolve (resolved : view.resolve p = .ok a) : a.Sound := by
  obtain ⟨name, rest, b, rfl, _, found, followed⟩ := resolve_ok_iff.mp resolved
  exact level.sound_of_resolve (Schema.resolve_ok_iff.mpr ⟨name, rest, b, rfl, found, followed⟩)

theorem resolve_findsItems (p : Path) : FindsItems (view.resolve p) := by
  unfold resolve
  split
  · split
    · exact level.resolve_findsItems p
    · exact .error rfl
  · exact .error rfl

theorem path_findsItems (given : PathRef) : FindsItems (view.path given) :=
  given.toPath_findsItems.bind fun p _ =>
    (resolve_findsItems level p).bind fun _ _ => .ok p

theorem compare_findsItems (p : Path) (operator : Operator) (v : Value) :
    FindsItems (view.compare p operator v) := by
  refine (resolve_findsItems level p).bind fun a resolved => ?_
  have operands := encodeOperands_findsItems (sound_of_resolve level resolved) p v operator
  split
  · exact .error rfl
  · exact operands.bind fun _ _ => .ok _

end

mutual

theorem condition_findsItems {view : SchemaView} (level : view.schema.Level true)
    (draft : ConditionDraft) : FindsItems (view.condition draft) := by
  cases draft with
  | comparison path operator v =>
    rw [condition]
    exact path.toPath_findsItems.bind fun p _ => compare_findsItems level p operator v
  | named path operator v =>
    rw [condition]
    exact path.toPath_findsItems.bind fun p _ =>
      (Operator.parse_findsItems operator).bind fun operator _ =>
        compare_findsItems level p operator v
  | attributeType path tag =>
    rw [condition]
    exact (WireTag.parse_findsItems tag).bind fun tag _ =>
      path.toPath_findsItems.bind fun p _ => compare_findsItems level p _ _
  | logical operator children =>
    rw [condition]
    exact (conditions_findsItems level children).bind fun children _ =>
      Condition.join_findsItems operator children

theorem conditions_findsItems {view : SchemaView} (level : view.schema.Level true)
    (drafts : List ConditionDraft) : FindsItems (view.conditions drafts) := by
  cases drafts with
  | nil => exact .ok []
  | cons draft rest =>
    rw [conditions]
    exact (condition_findsItems level draft).bind fun _ _ =>
      (conditions_findsItems level rest).bind fun _ _ => .ok _

end

end SchemaView

theorem Table.encodeKeys_findsItems (fields : List (String × Value)) {keys : Schema}
    (key : ∀ entry ∈ keys, entry.2.isKey = true) : FindsItems (Table.encodeKeys fields keys) := by
  induction keys with
  | nil => exact .ok []
  | cons entry rest ih =>
    obtain ⟨here, later⟩ := List.forall_mem_cons.mp key
    obtain ⟨name, a⟩ := entry
    unfold encodeKeys
    split
    · exact .error rfl
    · refine ((Attribute.Sound.key here).encodeAt_findsItems _ _).bind fun _ _ => ?_
      exact (ih later).bind fun _ _ => .ok _

theorem Table.encodeKey_findsItems (table : Table) (v : Value) :
    FindsItems (table.encodeKey v) := by
  unfold encodeKey
  split
  · split
    · exact .error rfl
    · exact (encodeKeys_findsItems _ (by simp)).map _
  · exact .error rfl

section

variable {table : Table} (level : table.schema.Level true)
include level

theorem Table.view_level (scope : ViewScope) : (table.view scope).schema.Level true :=
  level

theorem Table.condition_findsItems (scope : ViewScope) (draft : ConditionDraft) :
    FindsItems ((table.view scope).condition draft) :=
  SchemaView.condition_findsItems (Table.view_level level scope) draft

theorem Table.paths_findsItems (paths : List PathRef) :
    FindsItems (paths.mapM (table.view .full).path) :=
  Avoids.mapM (SchemaView.path_findsItems (Table.view_level level .full)) paths

theorem Put.encodeItem_findsItems (v : Value) : FindsItems (Put.encodeItem table v) := by
  unfold encodeItem
  refine (level.encodeItem_findsItems v).bind fun item _ => ?_
  split
  · exact .error rfl
  · exact .ok item

theorem Search.add_findsItems (scope : ViewScope) (search : Search) (call : SearchCall) :
    FindsItems (search.add table scope call) := by
  cases call with
  | filter draft =>
    exact (Table.condition_findsItems level scope draft).bind fun _ _ => .ok _
  | projection paths => exact (Table.paths_findsItems level paths).bind fun _ _ => .ok _
  | offset | limit | capacity => exact .ok _

theorem Query.add_findsItems (query : Query) (call : QueryCall) :
    FindsItems (query.add table call) := by
  cases call with
  | keyCondition draft =>
    exact (Table.condition_findsItems level .keysOnly draft).bind fun _ _ => .ok _
  | search call => exact (Search.add_findsItems level .nonKeys _ call).bind fun _ _ => .ok _

theorem Get.add_findsItems (get : Get) (call : GetCall) : FindsItems (get.add table call) := by
  cases call with
  | key v => exact (table.encodeKey_findsItems v).bind fun _ _ => .ok _
  | projection paths => exact (Table.paths_findsItems level paths).bind fun _ _ => .ok _
  | capacity => exact .ok _

theorem Write.add_findsItems (operation : Operation) (write : Write) (call : WriteCall) :
    FindsItems (write.add table operation call) := by
  cases call with
  | condition draft =>
    exact (Table.condition_findsItems level .full draft).bind fun _ _ => .ok _
  | returnValues mode =>
    refine Avoids.bind ?_ fun _ _ => .ok _
    unfold Operation.checkReturnValues
    split
    · exact .ok _
    · exact .error rfl
  | capacity | metrics => exact .ok _

theorem Put.add_findsItems (put : Put) (call : PutCall) : FindsItems (put.add table call) := by
  cases call with
  | item v => exact (encodeItem_findsItems level v).bind fun _ _ => .ok _
  | throwIfExists => exact .ok _
  | write call => exact (Write.add_findsItems level .put _ call).bind fun _ _ => .ok _

theorem Delete.add_findsItems (delete : Delete) (call : DeleteCall) :
    FindsItems (delete.add table call) := by
  cases call with
  | key v => exact (table.encodeKey_findsItems v).bind fun _ _ => .ok _
  | write call => exact (Write.add_findsItems level .delete _ call).bind fun _ _ => .ok _

namespace Update

theorem target_findsItems (p : Path) : FindsItems (target table p) := by
  unfold target
  split
  · exact .error rfl
  · exact SchemaView.resolve_findsItems (Table.view_level level .full) p

theorem sound_of_target (found : target table p = .ok a) : a.Sound := by
  unfold target at found
  split at found
  · contradiction
  · exact SchemaView.sound_of_resolve (Table.view_level level .full) found

theorem setAction_findsItems (p : Path) (v : Value) : FindsItems (setAction table p v) :=
  (target_findsItems level p).bind fun _ found =>
    ((sound_of_target level found).encodeAt_findsItems p v).bind fun _ _ => .ok _

theorem removeAction_findsItems (p : Path) : FindsItems (removeAction table p) :=
  (target_findsItems level p).bind fun _ _ => .ok _

theorem deleteAction_findsItems (p : Path) (members : Value) :
    FindsItems (deleteAction table p members) := by
  refine (target_findsItems level p).bind fun a found => ?_
  split
  · exact ((sound_of_target level found).encodeAt_findsItems p members).bind fun _ _ => .ok _
  · exact .error rfl

theorem add_findsItems (update : Update) (call : UpdateCall) :
    FindsItems (update.add table call) := by
  cases call with
  | key v => exact (table.encodeKey_findsItems v).bind fun _ _ => .ok _
  | set path v =>
    exact path.toPath_findsItems.bind fun p _ =>
      (setAction_findsItems level p v).bind fun _ _ => .ok _
  | remove path =>
    exact path.toPath_findsItems.bind fun p _ =>
      (removeAction_findsItems level p).bind fun _ _ => .ok _
  | delete path members =>
    exact path.toPath_findsItems.bind fun p _ =>
      (deleteAction_findsItems level p members).bind fun _ _ => .ok _
  | write call => exact (Write.add_findsItems level .update _ call).bind fun _ _ => .ok _

end Update

end

theorem callFaults_findsItems {add : σ → κ → Except Error σ} {start : σ}
    (each : ∀ call, FindsItems (add start call)) (calls : List κ) :
    ∀ e ∈ callFaults add start calls, e.isMissingItemSchema = false := by
  intro e among
  obtain ⟨call, _, fault⟩ := List.mem_filterMap.mp among
  unfold callFault at fault
  split at fault
  · contradiction
  · rename_i failed
    cases fault
    exact each call e failed

theorem SettledBy.findsItems {made : Except Error α} (settled : SettledBy made faults) :
    FindsItems made := by
  cases faults with
  | nil =>
    obtain ⟨r, same⟩ := settled
    rw [same]
    exact .ok r
  | cons fault rest =>
    have same : made = .error (.invalidOperand .request fault) := settled
    rw [same]
    exact .error rfl

/-- Each call finds the items that it looks for, and what is wrong with the request as a whole has
nothing to do with lists. -/
theorem Table.request_findsItems {table : Table} (level : table.schema.Level true)
    (calls : RequestCalls) : FindsItems (table.request calls) := by
  rw [Table.request_eq]
  have each : ∀ e ∈ calls.faults table, e.isMissingItemSchema = false := by
    cases calls with
    | query calls => exact callFaults_findsItems (Query.add_findsItems level _) calls
    | scan calls => exact callFaults_findsItems (Search.add_findsItems level .full _) calls
    | get calls => exact callFaults_findsItems (Get.add_findsItems level _) calls
    | put calls => exact callFaults_findsItems (Put.add_findsItems level _) calls
    | update calls => exact callFaults_findsItems (Update.add_findsItems level _) calls
    | delete calls => exact callFaults_findsItems (Delete.add_findsItems level _) calls
  cases faults : calls.faults table with
  | nil => exact (RequestCalls.requestOfLast_settled faults).findsItems
  | cons e rest => exact .error (each e (by simp [faults]))

/-- Nothing that is done with an accepted schema fails for want of the attribute of the items of a
list: following paths, encoding and decoding whole items and single attributes, comparing and
projecting under any view, and requests of any calls. -/
theorem Schema.accepted_findsItems {schema : Schema} (accepted : schema.Accepted) :
    (∀ p, FindsItems (schema.resolve p)) ∧
      (∀ text, FindsItems (schema.resolveText text)) ∧
      (∀ v, FindsItems (schema.encodeItem v)) ∧
      (∀ item mode, FindsItems (schema.decodeItem item mode) ∧
        FindsItems (schema.decodePartialItem item mode)) ∧
      (∀ p a, schema.resolve p = .ok a →
        (∀ v, FindsItems (a.encode v)) ∧ ∀ w mode, FindsItems (a.decode w mode)) ∧
      (∀ view : SchemaView, view.schema = schema →
        (∀ p, FindsItems (view.resolve p)) ∧
          (∀ p operator v, FindsItems (view.compare p operator v)) ∧
          (∀ draft, FindsItems (view.condition draft)) ∧
          ∀ paths : List PathRef, FindsItems (paths.mapM view.path)) ∧
      ∀ table : Table, table.schema = schema →
        (∀ p v, FindsItems (Update.setAction table p v)) ∧
          (∀ p, FindsItems (Update.removeAction table p)) ∧
          (∀ p members, FindsItems (Update.deleteAction table p members)) ∧
          ∀ calls, FindsItems (table.request calls) := by
  have level := accepted.wellFormed.toLevel
  refine ⟨level.resolve_findsItems, ?_, level.encodeItem_findsItems, ?_, ?_, ?_, ?_⟩
  · exact fun text => (Path.parse_findsItems text).bind fun p _ => level.resolve_findsItems p
  · exact fun item mode => ⟨level.decodeWith_findsItems _ item, level.decodeWith_findsItems _ item⟩
  · intro p a resolved
    have sound := level.sound_of_resolve resolved
    exact ⟨sound.encodeAt_findsItems [], fun w mode => sound.decodeAt_findsItems ⟨mode, true⟩ [] w⟩
  · rintro view rfl
    exact ⟨SchemaView.resolve_findsItems level, SchemaView.compare_findsItems level,
      SchemaView.condition_findsItems level, Avoids.mapM (SchemaView.path_findsItems level)⟩
  · rintro table rfl
    exact ⟨Update.setAction_findsItems level, Update.removeAction_findsItems level,
      Update.deleteAction_findsItems level, table.request_findsItems level⟩

namespace Depot

def schema : Schema :=
  [("id", .partitionKey .string), ("bins", .list (some (.list (some (.scalar .string)))))]

def table : Table :=
  ⟨.ofName "depot", schema, rfl, rfl⟩

def bins : Attribute :=
  .list (some (.list (some (.scalar .string))))

/-- The second bin is a text. -/
def spilled : Value :=
  .list [.list [], .string "x"]

def refill : RequestCalls :=
  .update [.set "bins" spilled]

theorem bins_findsItems :
    (∃ e, bins.encode spilled = .error e ∧ e.isMissingItemSchema = false) ∧
      (∃ e, SchemaView.compare ⟨schema, .nonKeys⟩ [.field "bins"] .contains (.string "x") =
        .error e ∧ e.isMissingItemSchema = false) ∧
      ∃ e, table.request refill = .error e ∧ e.isMissingItemSchema = false := by
  obtain ⟨_, _, _, _, alone, views, tables⟩ :=
    Schema.accepted_findsItems (.inr ⟨schema, rfl⟩ : schema.Accepted)
  refine ⟨?_, ?_, ?_⟩
  · obtain ⟨e, failed⟩ : ∃ e, bins.encode spilled = .error e := ⟨_, rfl⟩
    exact ⟨e, failed, (alone [.field "bins"] bins rfl).1 spilled e failed⟩
  · obtain ⟨e, failed⟩ : ∃ e, SchemaView.compare ⟨schema, .nonKeys⟩ [.field "bins"] .contains
        (.string "x") = .error e := ⟨_, rfl⟩
    exact ⟨e, failed, (views ⟨schema, .nonKeys⟩ rfl).2.1 _ _ _ e failed⟩
  · obtain ⟨e, failed⟩ : ∃ e, table.request refill = .error e := ⟨_, rfl⟩
    exact ⟨e, failed, (tables table rfl).2.2.2 refill e failed⟩

end Depot

end ItemSchema
