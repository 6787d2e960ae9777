import ItemSchema.Exchange
import ItemSchema.Proofs.Request.Outcome
import ItemSchema.Proofs.Request.Pending

/-! From the calls of a builder to the answer of the store. The calls decide whether there is a
request and which one, and the store gets it once or gets nothing. -/
namespace ItemSchema

/-- What is read from the answer to a request of any kind. -/
inductive Answer where
  | items (vs : List Value)
  | item (v : Option Value)

/-- Writes down every request that a client is handed. -/
def Client.recorded [Monad m] (client : Client m) : Client (StateT (List Request) m) :=
  fun r log => do return (← client r, log ++ [r])

namespace Table

def read (table : Table) : Request → Response → Except Error Answer
  | .query r, response => .items <$> table.readPage r.toScanRequest response
  | .scan r, response => .items <$> table.readPage r response
  | .get _, response => .item <$> response.item.mapM table.decodeItem
  | .put _, response => .item <$> table.readWritten response
  | .update r, response => .item <$> table.readUpdated r response
  | .delete _, response => .item <$> table.readWritten response

def send [Monad m] (table : Table) (client : Client m) : RequestCalls → m (Except Error Answer)
  | .query calls => (Answer.items <$> ·) <$> table.sendQuery client calls
  | .scan calls => (Answer.items <$> ·) <$> table.sendScan client calls
  | .get calls => (Answer.item <$> ·) <$> table.sendGet client calls
  | .put calls => (Answer.item <$> ·) <$> table.sendPut client calls
  | .update calls => (Answer.item <$> ·) <$> table.sendUpdate client calls
  | .delete calls => (Answer.item <$> ·) <$> table.sendDelete client calls

section

variable {m : Type → Type} [Monad m] [LawfulMonad m]

/-- An exchange may be described by the request as the store knows it. -/
theorem exchange_wrapped (client : Client m) (request : Except Error α) {wrap : α → Request}
    {read : α → Response → Except Error β} {f : β → γ}
    {readAny : Request → Response → Except Error γ}
    (reads : ∀ r response, readAny (wrap r) response = f <$> read r response) :
    (f <$> ·) <$> exchange client request wrap read =
      exchange client (wrap <$> request) id readAny := by
  cases request with
  | error e => exact map_pure _ _
  | ok r =>
    change _ <$> (client (wrap r) >>= _) = client (wrap r) >>= _
    rw [map_bind]
    apply bind_congr
    intro answer
    cases answer with
    | error e => exact map_pure _ _
    | ok response => exact (map_pure _ _).trans (congrArg pure (reads r response).symm)

theorem send_eq (table : Table) (client : Client m) (calls : RequestCalls) :
    table.send client calls = exchange client (table.request calls) id table.read := by
  cases calls with
  | query | scan | get | put | update | delete =>
    exact exchange_wrapped client _ fun _ _ => rfl

theorem exchange_recorded (client : Client m) (read : Request → Response → Except Error β)
    (r : Request) (log : List Request) :
    (exchange client.recorded (.ok r) id read).run log =
      (fun answer => (do read r (← answer.mapError .store), log ++ [r])) <$> client r := by
  change ((client r >>= fun answer => pure (answer, log ++ [r])) >>= _) = _
  rw [bind_assoc, ← bind_pure_comp]
  apply bind_congr
  intro answer
  rw [pure_bind]
  cases answer <;> rfl

end

end Table

/-- The first call that fails decides, whatever follows it. Otherwise a missing part or a page out
of range does, and otherwise there is a request, which the last call for each option and the actions
of an update determine. The client is handed that request once, or nothing. -/
theorem Table.request_outcome (table : Table) (calls : RequestCalls) :
    table.requestAfterAll calls = table.request calls ∧
      (∀ e rest, calls.faults table = e :: rest → table.request calls = .error e) ∧
      (calls.faults table = [] →
        (∀ fault rest, calls.lacking = fault :: rest →
          table.request calls = .error (.invalidOperand .request fault)) ∧
          (calls.lacking = [] → ∃ r, table.request calls = .ok r) ∧
          ∀ others, calls.SameLast others → others.faults table = [] →
            table.request others = table.request calls) ∧
      ∀ (m : Type → Type) [Monad m] [LawfulMonad m] (client : Client m) log,
        (∀ e, table.request calls = .error e →
          (table.send client.recorded calls).run log = pure (.error e, log)) ∧
          ∀ r, table.request calls = .ok r →
            (table.send client.recorded calls).run log =
              (fun answer => (do table.read r (← answer.mapError .store), log ++ [r])) <$>
                client r := by
  refine ⟨table.requestAfterAll_eq calls, ?_, ?_, ?_⟩
  · intro e rest faults
    rw [request_eq, faults]
    rfl
  · intro faultless
    have made : ∀ others : RequestCalls, others.faults table = [] →
        table.request others = table.requestOfLast others := by
      intro others faultless
      rw [request_eq, faultless]
      rfl
    have settled := RequestCalls.requestOfLast_settled faultless
    rw [← made calls faultless] at settled
    refine ⟨?_, ?_, ?_⟩
    · intro fault rest lacking
      rw [lacking] at settled
      exact settled
    · intro lacking
      rw [lacking] at settled
      exact settled
    · intro others same faultless'
      rw [made others faultless', made calls faultless, same.requestOfLast_eq]
  · intro m _ _ client log
    constructor
    · intro e failed
      rw [send_eq, failed]
      rfl
    · intro r built
      rw [send_eq, built, exchange_recorded]

namespace Kiosk

def schema : Schema :=
  [("id", .partitionKey .string), ("name", .scalar .string)]

def table : Table :=
  ⟨.ofName "kiosk", schema, rfl, rfl⟩

def key : Value :=
  .map [("id", .string "x")]

/-- The first key lacks its attribute, and the second one comes too late. -/
def late : RequestCalls :=
  .get [.key (.map []), .projection ["name"], .key key]

/-- Nothing tells what to delete. -/
def keyless : RequestCalls :=
  .delete [.write (.capacity .total), .write (.returnValues .allOld)]

def hesitant : RequestCalls :=
  .get [.capacity .indexes, .key (.map [("id", .string "y")]), .capacity .total, .key key]

def direct : RequestCalls :=
  .get [.key key, .capacity .total]

/-- The store cannot be reached. -/
def down : Client Id :=
  fun _ => .error (.transport "down")

theorem hesitant_outcome :
    table.request late = .error (.invalidOperand (.path [.field "id"]) .missingKeyAttribute) ∧
      (table.send (Client.recorded down) late).run [] =
        pure (Except.error (.invalidOperand (.path [.field "id"]) .missingKeyAttribute), []) ∧
      table.request keyless = .error (.invalidOperand .request (.missingPart .delete .key)) ∧
      ∃ r, table.request hesitant = .ok r ∧ table.request direct = .ok r ∧
        (table.send (Client.recorded down) hesitant).run [] =
          pure (Except.error (.store (.transport "down")), [r]) := by
  obtain ⟨_, fails, _, sendsNone⟩ := table.request_outcome late
  obtain ⟨_, _, lacks, _⟩ := table.request_outcome keyless
  obtain ⟨_, _, last, sends⟩ := table.request_outcome hesitant
  obtain ⟨_, made, depends⟩ := last rfl
  have failed := fails _ _ rfl
  obtain ⟨r, built⟩ := made rfl
  have same : hesitant.SameLast direct := by
    funext o
    cases o <;> rfl
  refine ⟨failed, (sendsNone Id down []).1 _ failed, (lacks rfl).1 _ _ rfl, r, built, ?_,
    (sends Id down []).2 r built⟩
  rw [depends direct same rfl, built]

end Kiosk

end ItemSchema
