import ItemSchema.Request.Get
import ItemSchema.Request.Update
import ItemSchema.Response

/-! Sending requests and reading the answers. A request that cannot be made is not sent, and every
other one is sent once. -/
namespace ItemSchema

/-- The way to the store. -/
abbrev Client (m : Type → Type) :=
  Request → m (Except StoreError Response)

namespace Table

/-- Sends a request, if there is one, and reads the answer to it. -/
def exchange [Monad m] (client : Client m) (request : Except Error α) (wrap : α → Request)
    (read : α → Response → Except Error β) : m (Except Error β) :=
  match request with
  | .error e => pure (.error e)
  | .ok r => do
    match ← client (wrap r) with
    | .error e => return .error (.store e)
    | .ok response => return read r response

/-- The decoded items of the page that was asked for. -/
def readPage (table : Table) (r : ScanRequest) (response : Response) : Except Error (List Value) :=
  (r.window response.items).mapM table.decodeItem

def readWritten (table : Table) (response : Response) : Except Error (Option Value) :=
  response.attributes.mapM table.decodeItem

/-- An update may return only what it has touched. -/
def readUpdated (table : Table) (r : UpdateRequest) (response : Response) :
    Except Error (Option Value) :=
  match r.returnValues with
  | some .updatedOld | some .updatedNew => response.attributes.mapM table.decodePartialItem
  | _ => table.readWritten response

variable [Monad m]

def sendQuery (table : Table) (client : Client m) (calls : List QueryCall) :
    m (Except Error (List Value)) :=
  exchange client (table.query calls) .query fun r => table.readPage r.toScanRequest

def sendScan (table : Table) (client : Client m) (calls : List SearchCall) :
    m (Except Error (List Value)) :=
  exchange client (table.scan calls) .scan table.readPage

/-- Nothing is read for an item that is not there. -/
def sendGet (table : Table) (client : Client m) (calls : List GetCall) :
    m (Except Error (Option Value)) :=
  exchange client (table.get calls) .get fun _ response => response.item.mapM table.decodeItem

def sendPut (table : Table) (client : Client m) (calls : List PutCall) :
    m (Except Error (Option Value)) :=
  exchange client (table.put calls) .put fun _ => table.readWritten

def sendUpdate (table : Table) (client : Client m) (calls : List UpdateCall) :
    m (Except Error (Option Value)) :=
  exchange client (table.update calls) .update table.readUpdated

def sendDelete (table : Table) (client : Client m) (calls : List DeleteCall) :
    m (Except Error (Option Value)) :=
  exchange client (table.delete calls) .delete fun _ => table.readWritten

end Table

end ItemSchema
