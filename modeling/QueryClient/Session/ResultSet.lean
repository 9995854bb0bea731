import QueryClient.Session.Executing
import QueryClient.Cursor.State

/-!
# Result sets

To execute a request is to submit it and to wait for its first rows, with which the cursor of its
result set starts. A request with a deadline of its own is cancelled when no rows come by then.
-/

namespace QueryClient

/-- The rows of an execution, which is one of those of its session. -/
structure ResultSet where
  execution : Nat
  cursor : Cursor Handle

def ResultSet.description {σ : Type} (results : ResultSet) (s : Session σ) : String :=
  Text.record "ResultSet" [
    ("cursor", results.cursor.description),
    ("execution", ((s.executions[results.execution]?).getD (Execution.start 0)).description)]

namespace Session

variable {σ : Type}

/-- A request with a number of its own and the fetch size of the settings. -/
def newRequest (sql : String) : Op σ Request := do
  let id ← nextExecutionId
  return {
    executionId := id
    sql := sql
    parameters := []
    fetchSize := (← get).settings.fetchSize
    cursorType := .forwardOnly
    rowLimit := 0
    queryTimeout := none }

/-- The options of the cursor over the results of a request. -/
def cursorOptions (request : Request) (s : Session σ) : Cursor.Options :=
  let options := Cursor.Options.ofSettings s.settings request.cursorType
  if request.fetchSize = 0 then options else { options with fetchSize := request.fetchSize }

/-- Opens a stream over a cell of the current row. -/
def openCell (results : ResultSet) (index : Nat) : Op σ (Streamer Handle) := do
  let cell ← ofExcept (results.cursor.cell index)
  match cell.reference? with
  | some reference => openLob results.execution reference
  | none => throw (.conversion (.notLob index cell.typeName))

variable (link : Link σ)

/-- Submits a request and waits for its first results. -/
def execute (request : Request) : Op σ ResultSet := do
  let handle ← invoke link .dqp "executeRequest"
    [.long request.executionId, .message (.request request)]
  let s ← get
  let timeout := request.queryTimeout.getD s.settings.callTimeout
  let (outcome, handle, s) := s.wait link timeout handle
  set (s.abandon handle)
  match outcome with
  | .error fault =>
    if fault.isTimeout && request.queryTimeout.isSome then
      tryCatch (discard (cancelRequest link request.executionId)) fun _ => return
    throw fault
  | .ok value =>
    let first ← ofExcept value.results
    let cursor ← ofExcept (Cursor.start (cursorOptions request (← get)) first)
    return ⟨← beginExecution request.executionId, cursor⟩

/-- Executes a statement with nothing else set. -/
def query (sql : String) : Op σ ResultSet := do
  execute link (← newRequest sql)

end Session

end QueryClient
