import QueryClient.Lob.Streamer
import QueryClient.Session.Calls
import QueryClient.Session.Link
import QueryClient.Settings

/-!
# The state of a session

A session has a connection with the handshake done, the bytes of a message that has not come in
whole, its calls, and the executions that it has started, each with the streams that were opened on
it. Keys, execution numbers and stream numbers are given out in order, from one.
-/

namespace QueryClient

/-- A handle on the reply to a call. -/
structure Handle where
  key : UInt64
  method : String
  /-- Whether the outcome has been picked up. -/
  finished : Bool
deriving DecidableEq, Repr

def Handle.description (handle : Handle) : String :=
  Text.record "PendingReply" [
    ("key", handle.key.toNat.repr),
    ("method", Text.quoted handle.method),
    ("finished", Text.truth handle.finished)]

/-- A stream that was opened on an execution. -/
structure LobStream where
  id : UInt64
  reference : LobReference
  marks : Lob.Marks
deriving DecidableEq, Repr

/-- A query that runs on the server, and the streams opened on it, the oldest first. -/
structure Execution where
  id : Int64
  closed : Bool
  streams : List LobStream
deriving DecidableEq, Repr

namespace Execution

/-- An execution that has just been started. -/
def start (id : Int64) : Execution := ⟨id, false, []⟩

/-- The streams that nobody has claimed the release of. -/
def unreleased (execution : Execution) : List LobStream :=
  execution.streams.filter (!·.marks.released)

def description (execution : Execution) : String :=
  Text.record "Execution" [
    ("id", toString execution.id.toInt),
    ("closed", Text.truth execution.closed)]

end Execution

/-- A session over a link with state `σ`. -/
structure Session (σ : Type) where
  settings : Settings
  /-- What the server said first. -/
  server : Handshake
  link : σ
  /-- The bytes that have come in and do not make up a message yet. -/
  unread : List Bytes
  /-- Whether what comes in is still read. -/
  reading : Bool
  calls : Calls
  lastKey : UInt64
  lastExecution : Int64
  lastStream : UInt64
  /-- The answer to the last successful logon. -/
  logonInfo : Option LogonResult
  executions : List Execution

namespace Session

variable {σ α : Type}

/-- An operation on a session; a failed one keeps what it has done. -/
abbrev Op (σ α : Type) := ExceptT Fault (StateM (Session σ)) α

/-- Whether the session is closed or lost. -/
def isClosed (s : Session σ) : Bool :=
  s.calls.isShutDown

/-- The fault of a pure step, or its result. -/
def ofExcept : Except Fault α → Op σ α
  | .ok a => return a
  | .error fault => throw fault

/-- Changes the state of an execution. -/
def changeExecution (e : Nat) (f : Execution → Execution) (s : Session σ) : Session σ :=
  { s with executions := s.executions.modify e f }

def isExecutionClosed (e : Nat) (s : Session σ) : Bool :=
  match s.executions[e]? with
  | some execution => execution.closed
  | none => true

def marks (e : Nat) (stream : UInt64) (s : Session σ) : Lob.Marks :=
  match (s.executions[e]?.bind fun execution => execution.streams.find? (·.id == stream)) with
  | some opened => opened.marks
  | none => ⟨true, true⟩

def setMarks (e : Nat) (stream : UInt64) (marks : Lob.Marks) (s : Session σ) : Session σ :=
  s.changeExecution e fun execution => { execution with
    streams := execution.streams.map fun opened =>
      if opened.id == stream then { opened with marks := marks } else opened }

end Session

end QueryClient
