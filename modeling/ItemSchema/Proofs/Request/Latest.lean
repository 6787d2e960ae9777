import ItemSchema.Proofs.Except
import ItemSchema.Proofs.Request.Source
import Mathlib.Data.List.Induction
import Mathlib.Logic.Function.Basic

/-! What counts in a row of calls. The first call that fails decides; otherwise the builder has in
each of its slots what the last call for it leaves there alone, and an update has all its
actions. -/
namespace ItemSchema

/-- The first fault, and without one the value. -/
def firstFault (faults : List ε) (value : α) : Except ε α :=
  match faults with
  | [] => .ok value
  | e :: _ => .error e

theorem firstFault_nil {faults : List ε} (faultless : faults = []) (value : α) :
    firstFault faults value = .ok value := by
  rw [faultless, firstFault]

theorem firstFault_ok_iff {faults : List ε} {value x : α} :
    firstFault faults value = .ok x ↔ faults = [] ∧ value = x := by
  cases faults <;> simp [firstFault]

section

variable {σ τ κ ι : Type} {ε : Type} (add : σ → κ → Except ε σ) (start : σ) (option : κ → ι)

/-- What is wrong with a call by itself. -/
def callFault (call : κ) : Option ε :=
  match add start call with
  | .ok _ => none
  | .error e => some e

/-- The faults of all calls that have one. -/
def callFaults (calls : List κ) : List ε :=
  calls.filterMap (callFault add start)

/-- What a call leaves behind when it is the only one. -/
def callAlone (call : κ) : σ :=
  match add start call with
  | .ok state => state
  | .error _ => start

/-- Steps that keep a description of all calls so far take a whole row. -/
theorem foldlM_firstFault (final : List κ → σ) (initial : final [] = start)
    (step : ∀ calls call, add (final calls) call =
      (fun _ => final (calls ++ [call])) <$> add start call) (calls : List κ) :
    calls.foldlM add start = firstFault (callFaults add start calls) (final calls) := by
  -- From the end of the row: the calls in front of the last one have failed or left what describes
  -- them.
  induction calls using List.reverseRecOn with
  | nil =>
    rw [initial]
    rfl
  | append_singleton calls call ih =>
    rw [List.foldlM_append, ih, callFaults, callFaults, List.filterMap_append]
    cases calls.filterMap (callFault add start) with
    | cons e rest => rfl
    | nil =>
      change [call].foldlM add (final calls) = firstFault ([call].filterMap _) _
      rw [List.foldlM_cons, step, List.filterMap_cons, callFault]
      cases add start call <;> rfl

variable [DecidableEq ι]

/-- The last call for each option. -/
def lastCall (calls : List κ) (o : ι) : Option κ :=
  (calls.filter fun call => option call = o).getLast?

theorem lastCall_concat (calls : List κ) (call : κ) :
    lastCall option (calls ++ [call]) =
      Function.update (lastCall option calls) (option call) (some call) := by
  funext o
  rw [lastCall, List.filter_append]
  by_cases same : o = option call
  · subst same
    simp
  · rw [Function.update_of_ne same, lastCall]
    simp [Ne.symm same]

/-- For each option what its last call leaves behind alone. -/
def latest (calls : List κ) (o : ι) : σ :=
  (lastCall option calls o).elim start (callAlone add start)

theorem latest_congr {calls others : List κ}
    (same : lastCall option calls = lastCall option others) :
    latest add start option calls = latest add start option others := by
  funext o
  rw [latest, latest, same]

theorem latest_concat {call : κ} (made : add start call = .ok state) (calls : List κ) :
    latest add start option (calls ++ [call]) =
      Function.update (latest add start option calls) (option call) state := by
  funext o
  rw [latest, lastCall_concat]
  by_cases same : o = option call
  · subst same
    simp [callAlone, made]
  · rw [Function.update_of_ne same, Function.update_of_ne same, latest]

variable {add start option}

theorem callAlone_eq {calls : List κ} {call : κ}
    (faultless : callFaults add start calls = []) (member : call ∈ calls) :
    add start call = .ok (callAlone add start call) := by
  rw [callFaults, List.filterMap_eq_nil_iff] at faultless
  have fault := faultless call member
  rw [callFault] at fault
  rw [callAlone]
  cases made : add start call with
  | error e => simp [made] at fault
  | ok state => rfl

/-- What is left for an option comes from its last call. -/
theorem latest_of_last {calls : List κ} {call : κ} {o : ι}
    (faultless : callFaults add start calls = []) (last : lastCall option calls o = some call) :
    add start call = .ok (latest add start option calls o) := by
  obtain ⟨member, _⟩ := List.mem_filter.mp (List.mem_of_getLast? last)
  rw [latest, last, Option.elim_some]
  exact callAlone_eq faultless member

/-- A slot that starts empty is filled if there is a call for it. -/
theorem latest_isSome {calls : List κ} {o : ι} (slot : σ → Option τ) (unset : slot start = none)
    (sets : ∀ call state, option call = o → add start call = .ok state → (slot state).isSome = true)
    (faultless : callFaults add start calls = []) :
    (slot (latest add start option calls o)).isSome = (lastCall option calls o).isSome := by
  rw [latest]
  cases last : lastCall option calls o with
  | none =>
    rw [Option.elim_none, unset]
    rfl
  | some call =>
    obtain ⟨member, about⟩ := List.mem_filter.mp (List.mem_of_getLast? last)
    exact sets call _ (of_decide_eq_true about) (callAlone_eq faultless member)

variable (add start option)

theorem map_update_latest (assemble : (ι → σ) → τ) (calls : List κ) (call : κ) :
    (fun made => assemble (Function.update (latest add start option calls) (option call) made)) <$>
        add start call =
      (fun _ => assemble (latest add start option (calls ++ [call]))) <$> add start call := by
  cases made : add start call with
  | error e => rfl
  | ok state =>
    rw [latest_concat add start option made]
    rfl

/-- A builder that takes a call into its slot, and every other slot as it is. -/
theorem foldlM_latest {assemble : (ι → σ) → σ} (initial : assemble (fun _ => start) = start)
    (step : ∀ parts call, add (assemble parts) call =
      (fun made => assemble (Function.update parts (option call) made)) <$> add start call)
    (calls : List κ) :
    calls.foldlM add start =
      firstFault (callFaults add start calls) (assemble (latest add start option calls)) := by
  apply foldlM_firstFault add start fun calls => assemble (latest add start option calls)
  · exact initial
  · intro calls call
    rw [step, map_update_latest]

end

/-- What calls are about. -/
inductive RequestOption where
  | keyCondition
  | filter
  | projection
  | offset
  | limit
  | capacity
  | key
  | item
  | throwIfExists
  | condition
  | returnValues
  | metrics
  | action
  deriving DecidableEq

def SearchCall.option : SearchCall → RequestOption
  | .filter _ => .filter
  | .projection _ => .projection
  | .offset _ => .offset
  | .limit _ => .limit
  | .capacity _ => .capacity

def QueryCall.option : QueryCall → RequestOption
  | .keyCondition _ => .keyCondition
  | .search call => call.option

def GetCall.option : GetCall → RequestOption
  | .key _ => .key
  | .projection _ => .projection
  | .capacity _ => .capacity

def WriteCall.option : WriteCall → RequestOption
  | .condition _ => .condition
  | .returnValues _ => .returnValues
  | .capacity _ => .capacity
  | .metrics _ => .metrics

def PutCall.option : PutCall → RequestOption
  | .item _ => .item
  | .throwIfExists => .throwIfExists
  | .write call => call.option

def UpdateCall.option : UpdateCall → RequestOption
  | .key _ => .key
  | .set _ _ | .remove _ | .delete _ _ => .action
  | .write call => call.option

def DeleteCall.option : DeleteCall → RequestOption
  | .key _ => .key
  | .write call => call.option

/-! Builders of which each slot comes from another one. -/

def Search.assemble (parts : RequestOption → Search) : Search where
  filter := (parts .filter).filter
  projection := (parts .projection).projection
  page := ⟨(parts .offset).page.offset, (parts .limit).page.limit⟩
  capacity := (parts .capacity).capacity

def Query.assemble (parts : RequestOption → Query) : Query where
  keyCondition := (parts .keyCondition).keyCondition
  search := .assemble fun o => (parts o).search

def Get.assemble (parts : RequestOption → Get) : Get where
  key := (parts .key).key
  projection := (parts .projection).projection
  capacity := (parts .capacity).capacity

def Write.assemble (parts : RequestOption → Write) : Write where
  condition := (parts .condition).condition
  returnValues := (parts .returnValues).returnValues
  capacity := (parts .capacity).capacity
  metrics := (parts .metrics).metrics

def Put.assemble (parts : RequestOption → Put) : Put where
  item := (parts .item).item
  throwIfExists := (parts .throwIfExists).throwIfExists
  write := .assemble fun o => (parts o).write

def Update.assemble (actions : List Action) (parts : RequestOption → Update) : Update where
  key := (parts .key).key
  actions := actions
  write := .assemble fun o => (parts o).write

def Delete.assemble (parts : RequestOption → Delete) : Delete where
  key := (parts .key).key
  write := .assemble fun o => (parts o).write

section

variable (table : Table)

theorem Search.add_assemble (scope : ViewScope) (parts : RequestOption → Search)
    (call : SearchCall) :
    (assemble parts).add table scope call =
      (fun made => assemble (Function.update parts call.option made)) <$>
        (empty table).add table scope call := by
  cases call with
  | filter draft =>
    simp only [add]
    cases (table.view scope).condition draft <;> rfl
  | projection paths =>
    simp only [add]
    cases paths.mapM (table.view .full).path <;> rfl
  | offset | limit | capacity => rfl

theorem Query.add_assemble (parts : RequestOption → Query) (call : QueryCall) :
    (assemble parts).add table call =
      (fun made => assemble (Function.update parts call.option made)) <$>
        (empty table).add table call := by
  cases call with
  | keyCondition draft =>
    simp only [add]
    cases (table.view .keysOnly).condition draft <;> rfl
  | search call =>
    simp only [add, assemble, empty, Search.add_assemble]
    cases (Search.empty table).add table .nonKeys call with
    | error e => rfl
    | ok search => cases call <;> rfl

theorem Get.add_assemble (parts : RequestOption → Get) (call : GetCall) :
    (assemble parts).add table call =
      (fun made => assemble (Function.update parts call.option made)) <$>
        (empty table).add table call := by
  cases call with
  | key v =>
    simp only [add]
    cases table.encodeKey v <;> rfl
  | projection paths =>
    simp only [add]
    cases paths.mapM (table.view .full).path <;> rfl
  | capacity => rfl

theorem Write.add_assemble (operation : Operation) (parts : RequestOption → Write)
    (call : WriteCall) :
    (assemble parts).add table operation call =
      (fun made => assemble (Function.update parts call.option made)) <$>
        (empty table).add table operation call := by
  cases call with
  | condition draft =>
    simp only [add]
    cases (table.view .full).condition draft <;> rfl
  | returnValues mode =>
    simp only [add]
    cases operation.checkReturnValues mode <;> rfl
  | capacity | metrics => rfl

theorem Put.add_assemble (parts : RequestOption → Put) (call : PutCall) :
    (assemble parts).add table call =
      (fun made => assemble (Function.update parts call.option made)) <$>
        (empty table).add table call := by
  cases call with
  | item v =>
    simp only [add]
    cases encodeItem table v <;> rfl
  | throwIfExists => rfl
  | write call =>
    simp only [add, assemble, empty, Write.add_assemble]
    cases (Write.empty table).add table .put call with
    | error e => rfl
    | ok write => cases call <;> rfl

theorem Update.addAction_assemble (actions : List Action) (parts : RequestOption → Update)
    (action : Except Error Action) :
    (do return (assemble actions parts).addAction (← action)) =
      (fun made => assemble (actions ++ made.actions) (Function.update parts .action made)) <$>
        (do return (empty table).addAction (← action)) := by
  cases action <;> rfl

/-- New actions come behind those that there are. -/
theorem Update.add_assemble (actions : List Action) (parts : RequestOption → Update)
    (call : UpdateCall) :
    (assemble actions parts).add table call =
      (fun made => assemble (actions ++ made.actions) (Function.update parts call.option made)) <$>
        (empty table).add table call := by
  cases call with
  | key v =>
    simp only [add]
    cases table.encodeKey v with
    | error e => rfl
    | ok key =>
      change _ = Except.ok (assemble (actions ++ []) _)
      rw [List.append_nil]
      rfl
  | set path v | remove path | delete path v =>
    simp only [add]
    cases path.toPath with
    | error e => rfl
    | ok p => exact addAction_assemble table actions parts _
  | write call =>
    simp only [add, assemble, empty, Write.add_assemble]
    cases (Write.empty table).add table .update call with
    | error e => rfl
    | ok write =>
      change _ = Except.ok (assemble (actions ++ []) _)
      rw [List.append_nil]
      cases call <;> rfl

theorem Delete.add_assemble (parts : RequestOption → Delete) (call : DeleteCall) :
    (assemble parts).add table call =
      (fun made => assemble (Function.update parts call.option made)) <$>
        (empty table).add table call := by
  cases call with
  | key v =>
    simp only [add]
    cases table.encodeKey v <;> rfl
  | write call =>
    simp only [add, assemble, empty, Write.add_assemble]
    cases (Write.empty table).add table .delete call with
    | error e => rfl
    | ok write => cases call <;> rfl

/-! What is left after whole rows of calls, if none of them fails. -/

def Search.final (scope : ViewScope) (calls : List SearchCall) : Search :=
  assemble (latest (add table scope) (empty table) SearchCall.option calls)

def Query.final (calls : List QueryCall) : Query :=
  assemble (latest (add table) (empty table) QueryCall.option calls)

def Get.final (calls : List GetCall) : Get :=
  assemble (latest (add table) (empty table) GetCall.option calls)

def Put.final (calls : List PutCall) : Put :=
  assemble (latest (add table) (empty table) PutCall.option calls)

def UpdateCall.actionCalls (calls : List UpdateCall) : List UpdateCall :=
  calls.filter fun call => call.option = .action

/-- The actions of all calls that add one. -/
def Update.actionsOf (calls : List UpdateCall) : List Action :=
  (UpdateCall.actionCalls calls).flatMap fun call =>
    (callAlone (add table) (empty table) call).actions

def Update.final (calls : List UpdateCall) : Update :=
  assemble (actionsOf table calls) (latest (add table) (empty table) UpdateCall.option calls)

def Delete.final (calls : List DeleteCall) : Delete :=
  assemble (latest (add table) (empty table) DeleteCall.option calls)

theorem Search.foldlM_add (scope : ViewScope) (calls : List SearchCall) :
    calls.foldlM (add table scope) (empty table) =
      firstFault (callFaults (add table scope) (empty table) calls) (final table scope calls) :=
  foldlM_latest _ _ _ rfl (add_assemble table scope) calls

theorem Query.foldlM_add (calls : List QueryCall) :
    calls.foldlM (add table) (empty table) =
      firstFault (callFaults (add table) (empty table) calls) (final table calls) :=
  foldlM_latest _ _ _ rfl (add_assemble table) calls

theorem Get.foldlM_add (calls : List GetCall) :
    calls.foldlM (add table) (empty table) =
      firstFault (callFaults (add table) (empty table) calls) (final table calls) :=
  foldlM_latest _ _ _ rfl (add_assemble table) calls

theorem Put.foldlM_add (calls : List PutCall) :
    calls.foldlM (add table) (empty table) =
      firstFault (callFaults (add table) (empty table) calls) (final table calls) :=
  foldlM_latest _ _ _ rfl (add_assemble table) calls

theorem Delete.foldlM_add (calls : List DeleteCall) :
    calls.foldlM (add table) (empty table) =
      firstFault (callFaults (add table) (empty table) calls) (final table calls) :=
  foldlM_latest _ _ _ rfl (add_assemble table) calls

/-- Exactly the calls for actions leave actions behind. -/
theorem Update.actions_alone {call : UpdateCall}
    (made : (empty table).add table call = .ok update) :
    update.actions = [] ↔ call.option ≠ .action := by
  cases call with
  | key v =>
    obtain ⟨key, _, same⟩ := bind_eq_ok.mp made
    cases same
    simp [empty, UpdateCall.option]
  | set path v | remove path | delete path v =>
    obtain ⟨p, _, rest⟩ := bind_eq_ok.mp made
    obtain ⟨action, _, same⟩ := bind_eq_ok.mp rest
    cases same
    simp [addAction, UpdateCall.option]
  | write call =>
    obtain ⟨write, _, same⟩ := bind_eq_ok.mp made
    cases same
    cases call <;> simp [empty, UpdateCall.option, WriteCall.option]

theorem Update.actionsOf_concat {call : UpdateCall}
    (made : (empty table).add table call = .ok update) (calls : List UpdateCall) :
    actionsOf table (calls ++ [call]) = actionsOf table calls ++ update.actions := by
  rw [actionsOf, UpdateCall.actionCalls, List.filter_append, List.flatMap_append]
  by_cases action : call.option = .action
  · simp [action, callAlone, made, actionsOf, UpdateCall.actionCalls]
  · simp [action, (actions_alone table made).mpr action, actionsOf, UpdateCall.actionCalls]

theorem Update.foldlM_add (calls : List UpdateCall) :
    calls.foldlM (add table) (empty table) =
      firstFault (callFaults (add table) (empty table) calls) (final table calls) := by
  -- The actions are not filled anew by each call, so the step is taken with all of them in view.
  apply foldlM_firstFault
  · rfl
  · intro calls call
    rw [final, add_assemble]
    cases made : (empty table).add table call with
    | error e => rfl
    | ok update =>
      change Except.ok _ = Except.ok _
      rw [final, actionsOf_concat table made, latest_concat _ _ _ made]

end

/-- The errors of the calls that fail, each call by itself. -/
def RequestCalls.faults (table : Table) : RequestCalls → List Error
  | .query calls => callFaults (Query.add table) (.empty table) calls
  | .scan calls => callFaults (Search.add table .full) (.empty table) calls
  | .get calls => callFaults (Get.add table) (.empty table) calls
  | .put calls => callFaults (Put.add table) (.empty table) calls
  | .update calls => callFaults (Update.add table) (.empty table) calls
  | .delete calls => callFaults (Delete.add table) (.empty table) calls

/-- The request that the last calls make. -/
def Table.requestOfLast (table : Table) : RequestCalls → Except Error Request
  | .query calls => .query <$> (Query.final table calls).request table
  | .scan calls => .scan <$> (Search.final table .full calls).request table .empty
  | .get calls => .get <$> (Get.final table calls).request table
  | .put calls => .put <$> (Put.final table calls).request table
  | .update calls => .update <$> (Update.final table calls).request table
  | .delete calls => .delete <$> (Delete.final table calls).request table

theorem map_firstFault_bind (f : ρ → τ) (request : σ → Except ε ρ) (faults : List ε) (state : σ) :
    (f <$> do request (← firstFault faults state)) =
      (do firstFault faults (); f <$> request state) := by
  cases faults <;> rfl

/-- Calls fail before anything that is wrong with the request as a whole. -/
theorem Table.request_eq (table : Table) (calls : RequestCalls) :
    table.request calls = (do firstFault (calls.faults table) (); table.requestOfLast calls) := by
  cases calls with
  | query calls =>
    rw [request, Table.query, Query.foldlM_add]
    exact map_firstFault_bind ..
  | scan calls =>
    rw [request, Table.scan, Search.foldlM_add]
    exact map_firstFault_bind ..
  | get calls =>
    rw [request, Table.get, Get.foldlM_add]
    exact map_firstFault_bind ..
  | put calls =>
    rw [request, Table.put, Put.foldlM_add]
    exact map_firstFault_bind ..
  | update calls =>
    rw [request, Table.update, Update.foldlM_add]
    exact map_firstFault_bind ..
  | delete calls =>
    rw [request, Table.delete, Delete.foldlM_add]
    exact map_firstFault_bind ..

/-- Rows with the same last calls, and for updates with the same actions in the same order. -/
def RequestCalls.SameLast : RequestCalls → RequestCalls → Prop
  | .query calls, .query others =>
    lastCall QueryCall.option calls = lastCall QueryCall.option others
  | .scan calls, .scan others =>
    lastCall SearchCall.option calls = lastCall SearchCall.option others
  | .get calls, .get others => lastCall GetCall.option calls = lastCall GetCall.option others
  | .put calls, .put others => lastCall PutCall.option calls = lastCall PutCall.option others
  | .update calls, .update others =>
    lastCall UpdateCall.option calls = lastCall UpdateCall.option others ∧
      UpdateCall.actionCalls calls = UpdateCall.actionCalls others
  | .delete calls, .delete others =>
    lastCall DeleteCall.option calls = lastCall DeleteCall.option others
  | _, _ => False

theorem RequestCalls.SameLast.requestOfLast_eq {calls others : RequestCalls}
    (same : calls.SameLast others) (table : Table) :
    table.requestOfLast calls = table.requestOfLast others := by
  cases calls <;> cases others <;> try contradiction
  case query =>
    rw [Table.requestOfLast, Query.final, latest_congr _ _ _ same]
    rfl
  case scan =>
    rw [Table.requestOfLast, Search.final, latest_congr _ _ _ same]
    rfl
  case get =>
    rw [Table.requestOfLast, Get.final, latest_congr _ _ _ same]
    rfl
  case put =>
    rw [Table.requestOfLast, Put.final, latest_congr _ _ _ same]
    rfl
  case update =>
    obtain ⟨last, actions⟩ := same
    rw [Table.requestOfLast, Update.final, Update.actionsOf, latest_congr _ _ _ last, actions]
    rfl
  case delete =>
    rw [Table.requestOfLast, Delete.final, latest_congr _ _ _ same]
    rfl

end ItemSchema
