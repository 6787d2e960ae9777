import ItemSchema.Proofs.Request.Calls
import ItemSchema.Proofs.Request.Latest

/-! Requests of calls that are all right by themselves. A part may be missing, or the page may be
out of range; nothing else fails, as the conditions of the calls can always be compiled. -/
namespace ItemSchema

/-- The first fault is reported, and without one there is a result. -/
def SettledBy (made : Except Error α) (faults : List OperandFault) : Prop :=
  match faults with
  | [] => ∃ r, made = .ok r
  | fault :: _ => made = .error (.invalidOperand .request fault)

theorem SettledBy.map {made : Except Error α} (settled : SettledBy made faults) (f : α → β) :
    SettledBy (f <$> made) faults := by
  cases faults with
  | nil =>
    obtain ⟨r, same⟩ := settled
    exact ⟨f r, by rw [same]; rfl⟩
  | cons fault rest =>
    have same : made = .error (.invalidOperand .request fault) := settled
    rw [same]
    rfl

theorem SettledBy.ok_iff {made : Except Error α} (settled : SettledBy made faults) :
    (∃ r, made = .ok r) ↔ faults = [] := by
  cases faults with
  | nil => exact iff_of_true settled rfl
  | cons fault rest =>
    have same : made = .error (.invalidOperand .request fault) := settled
    simp [same]

theorem SettledBy.error_iff {made : Except Error α} (settled : SettledBy made faults) :
    made = .error e ↔ ∃ fault, faults.head? = some fault ∧ e = .invalidOperand .request fault := by
  cases faults with
  | nil =>
    obtain ⟨r, same⟩ := settled
    simp [same]
  | cons fault rest =>
    have same : made = .error (.invalidOperand .request fault) := settled
    simp [same, eq_comm]

/-- A part that no call has given. -/
def lack (operation : Operation) (part : RequestPart) : Option α → List OperandFault
  | some _ => []
  | none => [.missingPart operation part]

theorem lack_congr {operation : Operation} {part : RequestPart} {x : Option α} {y : Option β}
    (same : x.isSome = y.isSome) : lack operation part x = lack operation part y := by
  cases x <;> cases y <;> simp at same <;> rfl

/-- What is wrong with a page: no item is wanted, or there are too many in front of its end. -/
def Page.faults (page : Page) : List OperandFault :=
  match page.limit with
  | none => []
  | some limit =>
    if limit = 0 then [.zeroLimit]
    else if limit + page.offset < Nat.pow 2 64 then []
    else [.windowTooLarge limit page.offset]

theorem Page.storeLimit_settled (page : Page) : SettledBy page.storeLimit page.faults := by
  rw [storeLimit, faults]
  cases page.limit with
  | none => exact ⟨none, rfl⟩
  | some limit =>
    dsimp only
    split
    · rfl
    · split
      · exact ⟨_, rfl⟩
      · rfl

section

variable {table : Table}

theorem Aliases.compileCondition_ok (t : Aliases) (stems : AliasStems) {c : Condition}
    (fits : ∀ node ∈ c.subtrees, node.Fits) :
    ∃ u text, t.compileCondition stems c = (u, .ok text) := by
  obtain ⟨text, compiled⟩ := (t.compileCondition_ok_iff stems c).mpr fits
  exact ⟨_, text, Prod.ext rfl compiled⟩

theorem Aliases.compileOptional_ok (t : Aliases) (stems : AliasStems) {source : Option Condition}
    (fits : ∀ c ∈ source, ∀ node ∈ c.subtrees, node.Fits) :
    ∃ u text, t.compileOptional stems source = (u, .ok text) := by
  cases source with
  | none => exact ⟨t, none, rfl⟩
  | some c =>
    obtain ⟨u, text, compiled⟩ := t.compileCondition_ok stems (fits c rfl)
    rw [compileOptional, compiled]
    exact ⟨u, some text, rfl⟩

theorem Search.request_settled {search : Search} (builds : table.Builds scope search.filter)
    (t : Aliases) : SettledBy (search.request table t) search.page.faults := by
  obtain ⟨u, text, compiled⟩ :=
    t.compileOptional_ok table.config.stems fun c given => (builds c given).fits
  rw [request, compiled]
  exact search.page.storeLimit_settled.map _

theorem Query.request_settled {query : Query} (built : query.Built table) :
    SettledBy (query.request table)
      (lack .query .keyCondition query.keyCondition ++ query.search.page.faults) := by
  rw [request]
  cases given : query.keyCondition with
  | none => rfl
  | some c =>
    obtain ⟨t, text, compiled⟩ :=
      Aliases.empty.compileCondition_ok table.config.stems (built.keyCondition c given).fits
    dsimp only
    rw [compiled]
    exact (Search.request_settled built.filter t).map _

theorem Get.request_settled (get : Get) :
    SettledBy (get.request table) (lack .get .key get.key) := by
  rw [request]
  cases get.key with
  | none => rfl
  | some key => exact ⟨_, rfl⟩

theorem Write.request_ok (table : Table) (write : Write) (t : Aliases)
    (fits : ∀ c ∈ write.condition, ∀ node ∈ c.subtrees, node.Fits) :
    ∃ r, write.request table t = .ok r := by
  obtain ⟨u, text, compiled⟩ := t.compileOptional_ok table.config.stems fits
  rw [request, compiled]
  exact ⟨_, rfl⟩

/-- The condition that an item is new can be joined to any other one. -/
theorem Put.condition_fits {put : Put} (builds : table.Builds .full put.write.condition) :
    ∀ c ∈ put.condition table, ∀ node ∈ c.subtrees, node.Fits := by
  have absentFits : ∀ node ∈ (absent table).subtrees, node.Fits := by
    intro node member
    rw [absent, ConditionTree.subtrees, List.mem_singleton] at member
    rw [member]
    exact ⟨Nat.le_refl _, Nat.le_refl _⟩
  rw [condition]
  split
  · cases given : put.write.condition with
    | none =>
      intro c same
      cases same
      exact absentFits
    | some own =>
      intro c same
      cases same
      -- The conjunction itself, the nodes of the caller's condition, and the comparison.
      rw [ConditionTree.subtrees, ConditionTree.subtreesOfAll, ConditionTree.subtreesOfAll,
        ConditionTree.subtreesOfAll, List.append_nil, List.forall_mem_cons, List.forall_mem_append]
      exact ⟨Nat.le_succ 1, (builds own given).fits, absentFits⟩
  · intro c given
    exact (builds c given).fits

theorem Put.request_settled {put : Put} (builds : table.Builds .full put.write.condition) :
    SettledBy (put.request table) (lack .put .item put.item) := by
  rw [request]
  cases put.item with
  | none => rfl
  | some item =>
    obtain ⟨r, written⟩ :=
      Write.request_ok table { put.write with condition := put.condition table } .empty
        (condition_fits builds)
    dsimp only
    rw [written]
    exact ⟨_, rfl⟩

theorem Update.request_settled {update : Update}
    (builds : table.Builds .full update.write.condition) :
    SettledBy (update.request table)
      (lack .update .key update.key ++ lack .update .action update.actions.head?) := by
  rw [request]
  cases update.key with
  | none => rfl
  | some key =>
    cases update.actions with
    | nil => rfl
    | cons action rest =>
      rcases Aliases.empty.compileUpdate table.config.stems (action :: rest) with ⟨t, text⟩
      obtain ⟨r, written⟩ := update.write.request_ok table t fun c given => (builds c given).fits
      dsimp only
      rw [written]
      exact ⟨_, rfl⟩

theorem Delete.request_settled {delete : Delete}
    (builds : table.Builds .full delete.write.condition) :
    SettledBy (delete.request table) (lack .delete .key delete.key) := by
  rw [request]
  cases delete.key with
  | none => rfl
  | some key =>
    obtain ⟨r, written⟩ := delete.write.request_ok table .empty fun c given => (builds c given).fits
    dsimp only
    rw [written]
    exact ⟨_, rfl⟩

end

def SearchCall.offset? : SearchCall → Option Nat
  | .offset count => some count
  | _ => none

def SearchCall.limit? : SearchCall → Option Nat
  | .limit count => some count
  | _ => none

def QueryCall.search? : QueryCall → Option SearchCall
  | .search call => some call
  | .keyCondition _ => none

/-- The page that the last calls ask for. -/
def Page.asked (last : RequestOption → Option SearchCall) : Page :=
  ⟨((last .offset).bind SearchCall.offset?).getD 0, (last .limit).bind SearchCall.limit?⟩

/-- What is wrong with the last calls taken together: the part that is missing, and otherwise the
page. -/
def RequestCalls.lacking : RequestCalls → List OperandFault
  | .query calls =>
    let last := lastCall QueryCall.option calls
    lack .query .keyCondition (last .keyCondition) ++
      (Page.asked fun o => (last o).bind QueryCall.search?).faults
  | .scan calls => (Page.asked (lastCall SearchCall.option calls)).faults
  | .get calls => lack .get .key (lastCall GetCall.option calls .key)
  | .put calls => lack .put .item (lastCall PutCall.option calls .item)
  | .update calls =>
    let last := lastCall UpdateCall.option calls
    lack .update .key (last .key) ++ lack .update .action (last .action)
  | .delete calls => lack .delete .key (lastCall DeleteCall.option calls .key)

section

variable {table : Table}

theorem Search.alone_page (scope : ViewScope) (call : SearchCall) :
    (callAlone (add table scope) (empty table) call).page =
      ⟨call.offset?.getD 0, call.limit?⟩ := by
  rw [callAlone]
  cases call with
  | filter draft =>
    rw [add]
    cases (table.view scope).condition draft <;> rfl
  | projection paths =>
    rw [add]
    cases paths.mapM (table.view .full).path <;> rfl
  | offset | limit | capacity => rfl

theorem Page.asked_eq (table : Table) (scope : ViewScope)
    (last : RequestOption → Option SearchCall) :
    Page.asked last =
      (Search.assemble fun o =>
        (last o).elim (.empty table) (callAlone (Search.add table scope) (.empty table))).page := by
  rw [asked, Search.assemble]
  congr 1
  · cases last .offset with
    | none => rfl
    | some call => exact (congrArg Page.offset (Search.alone_page scope call)).symm
  · cases last .limit with
    | none => rfl
    | some call => exact (congrArg Page.limit (Search.alone_page scope call)).symm

theorem Query.alone_search (call : QueryCall) :
    (callAlone (add table) (empty table) call).search =
      call.search?.elim (.empty table)
        (callAlone (Search.add table .nonKeys) (.empty table)) := by
  rw [callAlone]
  cases call with
  | keyCondition draft =>
    rw [add]
    cases (table.view .keysOnly).condition draft <;> rfl
  | search call =>
    simp only [add, empty, QueryCall.search?, Option.elim_some, callAlone]
    cases (Search.empty table).add table .nonKeys call <;> rfl

theorem Query.final_page (calls : List QueryCall) :
    (final table calls).search.page =
      Page.asked fun o => (lastCall QueryCall.option calls o).bind QueryCall.search? := by
  rw [Page.asked_eq table .nonKeys]
  apply congrArg (fun parts => (Search.assemble parts).page)
  funext o
  rw [latest]
  cases lastCall QueryCall.option calls o with
  | none => rfl
  | some call => exact alone_search call

theorem Query.final_keyCondition {calls : List QueryCall}
    (faultless : callFaults (add table) (empty table) calls = []) :
    (final table calls).keyCondition.isSome =
      (lastCall QueryCall.option calls .keyCondition).isSome := by
  refine latest_isSome Query.keyCondition rfl ?_ faultless
  intro call query about made
  cases call with
  | keyCondition draft =>
    obtain ⟨c, _, same⟩ := bind_eq_ok.mp made
    cases same
    rfl
  | search call => cases call <;> cases about

theorem Get.final_key {calls : List GetCall}
    (faultless : callFaults (add table) (empty table) calls = []) :
    (final table calls).key.isSome = (lastCall GetCall.option calls .key).isSome := by
  refine latest_isSome Get.key rfl ?_ faultless
  intro call get about made
  cases call with
  | key v =>
    obtain ⟨key, _, same⟩ := bind_eq_ok.mp made
    cases same
    rfl
  | projection | capacity => cases about

theorem Put.final_item {calls : List PutCall}
    (faultless : callFaults (add table) (empty table) calls = []) :
    (final table calls).item.isSome = (lastCall PutCall.option calls .item).isSome := by
  refine latest_isSome Put.item rfl ?_ faultless
  intro call put about made
  cases call with
  | item v =>
    obtain ⟨item, _, same⟩ := bind_eq_ok.mp made
    cases same
    rfl
  | throwIfExists => cases about
  | write call => cases call <;> cases about

theorem Update.final_key {calls : List UpdateCall}
    (faultless : callFaults (add table) (empty table) calls = []) :
    (final table calls).key.isSome = (lastCall UpdateCall.option calls .key).isSome := by
  refine latest_isSome Update.key rfl ?_ faultless
  intro call update about made
  cases call with
  | key v =>
    obtain ⟨key, _, same⟩ := bind_eq_ok.mp made
    cases same
    rfl
  | set | remove | delete => cases about
  | write call => cases call <;> cases about

theorem Update.final_actions {calls : List UpdateCall}
    (faultless : callFaults (add table) (empty table) calls = []) :
    (final table calls).actions.head?.isSome =
      (lastCall UpdateCall.option calls .action).isSome := by
  have none_iff : actionsOf table calls = [] ↔ UpdateCall.actionCalls calls = [] := by
    rw [actionsOf, List.flatMap_eq_nil_iff, List.eq_nil_iff_forall_not_mem]
    apply forall_congr'
    intro call
    apply imp_congr_right
    intro member
    obtain ⟨given, action⟩ := List.mem_filter.mp member
    rw [actions_alone table (callAlone_eq faultless given)]
    simpa using action
  rw [final, assemble, lastCall, ← UpdateCall.actionCalls, Bool.eq_iff_iff, List.isSome_head?,
    List.getLast?_isSome]
  exact not_congr none_iff

theorem Delete.final_key {calls : List DeleteCall}
    (faultless : callFaults (add table) (empty table) calls = []) :
    (final table calls).key.isSome = (lastCall DeleteCall.option calls .key).isSome := by
  refine latest_isSome Delete.key rfl ?_ faultless
  intro call delete about made
  cases call with
  | key v =>
    obtain ⟨key, _, same⟩ := bind_eq_ok.mp made
    cases same
    rfl
  | write call => cases call <;> cases about

/-- Without a fault in a call, the request of the last calls is decided by what they lack. -/
theorem RequestCalls.requestOfLast_settled {calls : RequestCalls}
    (faultless : calls.faults table = []) :
    SettledBy (table.requestOfLast calls) calls.lacking := by
  cases calls with
  | query calls =>
    have taken := (Query.foldlM_add table calls).trans (firstFault_nil faultless _)
    rw [Table.requestOfLast, lacking, ← lack_congr (Query.final_keyCondition faultless),
      ← Query.final_page]
    exact (Query.request_settled (Query.built taken)).map _
  | scan calls =>
    have taken := (Search.foldlM_add table .full calls).trans (firstFault_nil faultless _)
    rw [Table.requestOfLast, lacking, Page.asked_eq table .full]
    exact (Search.request_settled (Search.built taken) .empty).map _
  | get calls =>
    rw [Table.requestOfLast, lacking, ← lack_congr (Get.final_key faultless)]
    exact (Get.request_settled _).map _
  | put calls =>
    have taken := (Put.foldlM_add table calls).trans (firstFault_nil faultless _)
    rw [Table.requestOfLast, lacking, ← lack_congr (Put.final_item faultless)]
    exact (Put.request_settled (Put.built taken)).map _
  | update calls =>
    have taken := (Update.foldlM_add table calls).trans (firstFault_nil faultless _)
    rw [Table.requestOfLast, lacking, ← lack_congr (Update.final_key faultless),
      ← lack_congr (Update.final_actions faultless)]
    exact (Update.request_settled (Update.built taken)).map _
  | delete calls =>
    have taken := (Delete.foldlM_add table calls).trans (firstFault_nil faultless _)
    rw [Table.requestOfLast, lacking, ← lack_congr (Delete.final_key faultless)]
    exact (Delete.request_settled (Delete.built taken)).map _

end

end ItemSchema
