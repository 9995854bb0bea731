import QueryClient.Message.Results

/-!
# The calls of a session

Every call has a key, and replies come in any order. The table holds the keys of the calls that wait
for a reply, the outcomes that have come in and have not been picked up, and, from the moment the
session shuts down, the cause of it. The first cause stays; it fails every call that still waits and
every call that comes later.
-/

namespace QueryClient

/-- Why a session has shut down. -/
inductive Shutdown where
  | closed
  | lost (reason : String)
deriving DecidableEq, Repr

/-- The fault of a call on a session that has shut down. -/
def Shutdown.fault : Shutdown → Fault
  | .closed => .sessionClosed
  | .lost reason => .connectionLost reason

/-- Calls without a reply, outcomes that have not been picked up, and the cause of the shutdown. -/
structure Calls where
  waiting : List UInt64
  outcomes : List (UInt64 × Except Fault Reply)
  shutdown : Option Shutdown

/-- Whether the rows of a reply agree with themselves, which decoding does not check. -/
def Reply.validate (reply : Reply) : Except Fault Unit :=
  match reply.outcome with
  | .ok (.message (.results batch)) => batch.validate
  | _ => .ok ()

namespace Calls

def empty : Calls := ⟨[], [], none⟩

def isShutDown (calls : Calls) : Bool :=
  calls.shutdown.isSome

/-- The fault of calls that cannot be made or answered any more. -/
def shutdownFault (calls : Calls) : Fault :=
  match calls.shutdown with
  | some cause => cause.fault
  | none => .sessionClosed

/-- Enters a call; not after the shutdown. -/
def register (key : UInt64) (calls : Calls) : Except Fault Calls :=
  if calls.isShutDown then .error calls.shutdownFault
  else .ok { calls with waiting := key :: calls.waiting }

/-- Hands an outcome to the call that waits for it; says whether there is one. -/
def settle (key : UInt64) (outcome : Except Fault Reply) (calls : Calls) : Bool × Calls :=
  if calls.waiting.contains key then
    (true, { calls with
      waiting := calls.waiting.filter (· != key)
      outcomes := (key, outcome) :: calls.outcomes })
  else (false, calls)

/-- Hands a reply to the call it is for. -/
def complete (reply : Reply) (calls : Calls) : Bool × Calls :=
  calls.settle reply.key (.ok reply)

def fail (key : UInt64) (fault : Fault) (calls : Calls) : Bool × Calls :=
  calls.settle key (.error fault)

/-- Forgets a call that nobody asks for any more. -/
def forget (key : UInt64) (calls : Calls) : Calls :=
  { calls with
    waiting := calls.waiting.filter (· != key)
    outcomes := calls.outcomes.filter (·.1 != key) }

/-- Shuts down, unless that has happened, and fails every call that waits. -/
def shutDown (cause : Shutdown) (calls : Calls) : Calls :=
  let cause := calls.shutdown.getD cause
  { waiting := []
    outcomes := calls.waiting.map (·, .error cause.fault) ++ calls.outcomes
    shutdown := some cause }

/-- Shuts down because the connection is lost. -/
def lose (reason : String) (calls : Calls) : Calls :=
  calls.shutDown (.lost reason)

/-- Shuts down because the session is closed. -/
def close (calls : Calls) : Calls :=
  calls.shutDown .closed

/-- The outcome of a call, unless it still waits. -/
def outcome? (key : UInt64) (calls : Calls) : Option (Except Fault Reply) :=
  match calls.outcomes.lookup key with
  | some outcome => some outcome
  | none => if calls.waiting.contains key then none else some (.error calls.shutdownFault)

/-! ## What comes in -/

/-- Takes in what has come in; says whether reading goes on. A reply goes to its call, and one that
does not agree with itself ends the session, as does a fault in reading. Nothing else was asked for,
and it is ignored. -/
def receive (arrival : Except Fault Message) (calls : Calls) : Bool × Calls :=
  match arrival with
  | .ok (.reply reply) =>
    match reply.validate with
    | .ok () => (true, (calls.complete reply).2)
    | .error fault => (false, (calls.fail reply.key fault).2.lose fault.message)
  | .ok _ => (true, calls)
  | .error fault => (false, calls.lose fault.message)

/-- Takes in one thing after another, up to the one that ends the session. -/
def receiveAll : List (Except Fault Message) → Calls → Bool × Calls
  | [], calls => (true, calls)
  | arrival :: rest, calls =>
    match calls.receive arrival with
    | (true, calls) => receiveAll rest calls
    | (false, calls) => (false, calls)

end Calls

end QueryClient
