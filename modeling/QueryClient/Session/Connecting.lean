import QueryClient.Message.Handshake
import QueryClient.Session.Calling
import QueryClient.Value.Access

/-!
# Opening and closing a session

The server says first which version it speaks, within the connect timeout; if it is the version of
this client, the client says the same and the session is open. Closing it logs off if need be, fails
the calls that still wait, and ends the connection.
-/

namespace QueryClient.Session

variable {σ : Type} (link : Link σ)

/-- Waits for the first message up to a deadline; gives what is read of the flow after it. -/
def firstMessage (settings : Settings) (deadline : Instant) :
    (looks : Nat) → Inflow → σ → Except Fault (Message × Inflow × σ)
  | 0, _, _ => .error (.connectionTimeout settings.connectTimeout)
  | looks + 1, flow, state =>
    match flow.message settings.allowed settings.maxObjectSize with
    | (.ok m, rest) => .ok (m, rest, state)
    | (.error (.fault fault), _) => .error fault
    | (.error .starved, _) =>
      if deadline ≤ link.now state then .error (.connectionTimeout settings.connectTimeout)
      else
        let (news, state) := link.await deadline state
        firstMessage settings deadline looks ⟨flow.pieces ++ news.pieces, news.ending⟩ state

/-- A session after the handshake. -/
def start (settings : Settings) (server : Handshake) (state : σ) : Session σ where
  settings := settings
  server := server
  link := state
  unread := []
  reading := true
  calls := Calls.empty
  lastKey := 0
  lastExecution := 0
  lastStream := 0
  logonInfo := none
  executions := []

/-- Opens a session over a link. -/
def connect (settings : Settings) (state : σ) : Except Fault (Session σ) := do
  settings.validate
  let deadline := link.now state + settings.connectTimeout.nanoseconds
  let (first, flow, state) ←
    firstMessage link settings deadline (Link.looks settings.connectTimeout) ⟨[], .quiet⟩ state
  let server ← first.greeting
  server.validate
  let frame ← Frame.encode settings.encoding (.handshake Handshake.client)
  return (start settings server (link.send frame state)).takeIn flow

/-- How long closing waits for the server to log off. -/
def logoffTimeout : Duration := Duration.seconds 2

def close : Op σ Unit := do
  if (← get).isClosed then
    return
  if (← get).logonInfo.isSome then
    tryCatch (discard (callWithin link logoffTimeout .logon "logoff" [])) fun _ => return
  modify fun s => { s with
    calls := s.calls.close
    reading := false
    link := link.shutDown s.link }

end QueryClient.Session
