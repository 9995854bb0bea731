import QueryClient.Session.Waiting

/-!
# Calling the server

A call takes a key, is entered in the table, and is sent; one that cannot be encoded or sent leaves
no entry.
-/

namespace QueryClient.Session

variable {σ : Type}

def nextKey : Op σ UInt64 := do
  let s ← get
  set { s with lastKey := s.lastKey + 1 }
  return s.lastKey + 1

def nextExecutionId : Op σ Int64 := do
  let s ← get
  set { s with lastExecution := s.lastExecution + 1 }
  return s.lastExecution + 1

def nextStreamId : Op σ UInt64 := do
  let s ← get
  set { s with lastStream := s.lastStream + 1 }
  return s.lastStream + 1

/-- Enters a call in the table. -/
def register (key : UInt64) : Op σ Unit := do
  let s ← get
  let calls ← ofExcept (s.calls.register key)
  set { s with calls := calls }

variable (link : Link σ)

/-- Sends a message, if the link still takes it. -/
def send (m : Message) : Op σ Unit := do
  let s ← get
  let frame ← ofExcept (Frame.encode s.settings.encoding m)
  if link.accepts s.link then
    set { s with link := link.send frame s.link }
  else
    throw s.calls.shutdownFault

/-- Makes a call, without waiting for the reply. One that cannot be sent is given up. -/
def invoke (service : Service) (method : String) (args : List Value) : Op σ Handle := do
  let key ← nextKey
  register key
  let handle : Handle := ⟨key, method, false⟩
  try
    send link (.invocation ⟨key, service, method, args⟩)
    return handle
  catch fault =>
    modify (abandon handle)
    throw fault

/-- Makes a call, waits some time for the value of its reply, and gives up then. -/
def callWithin (timeout : Duration) (service : Service) (method : String) (args : List Value) :
    Op σ Value := do
  let handle ← invoke link service method args
  let s ← get
  let (outcome, handle, s) := s.wait link timeout handle
  set (s.abandon handle)
  ofExcept outcome

/-- Makes a call and waits for the value of its reply as long as the settings say. -/
def call (service : Service) (method : String) (args : List Value) : Op σ Value := do
  callWithin link (← get).settings.callTimeout service method args

def ping : Op σ Unit := do
  let _ ← call link .logon "ping" []

end QueryClient.Session
