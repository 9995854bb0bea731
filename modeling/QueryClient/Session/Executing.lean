import QueryClient.Cursor.Source
import QueryClient.Session.Calling
import QueryClient.Value.Access

/-!
# Executions

An execution serves batches of rows to a cursor and chunks of large objects to streamers. Closing it
releases the streams that are still open, then the result itself; it is closed once, whatever comes
of that, and nothing is sent for it on a session that has shut down.
-/

namespace QueryClient.Session

variable {σ : Type}

def ensureExecutionOpen (e : Nat) : Op σ Unit := do
  if (← get).isExecutionClosed e then
    throw .cursorClosed

def executionId (e : Nat) (s : Session σ) : Int64 :=
  match s.executions[e]? with
  | some execution => execution.id
  | none => 0

/-- Starts an execution; says which one it is. -/
def beginExecution (id : Int64) : Op σ Nat := do
  let s ← get
  set { s with executions := s.executions ++ [Execution.start id] }
  return s.executions.length

/-- Opens a stream on an execution. -/
def openLob (e : Nat) (reference : LobReference) : Op σ (Streamer Handle) := do
  ensureExecutionOpen e
  let id ← nextStreamId
  modify (changeExecution e fun execution => { execution with
    streams := execution.streams ++ [⟨id, reference, ⟨false, false⟩⟩] })
  return Streamer.start id reference (← get).settings.callTimeout

variable (link : Link σ)

/-- Asks for `count` rows from `start` on. -/
def requestBatch (e : Nat) (start count : Int) : Op σ Handle := do
  ensureExecutionOpen e
  let count := min count 0x7FFFFFFF
  invoke link .dqp "processCursorRequest"
    [.long (executionId e (← get)), .long (Int64.ofInt start), .integer (Int32.ofInt count)]

/-- Cancels an execution by its number; true if it was still running. -/
def cancelRequest (id : Int64) : Op σ Bool := do
  let value ← call link .dqp "cancelRequest" [.long id]
  return value.boolean?.getD false

/-- The arguments of a call about a stream. -/
def streamArgs (e : Nat) (stream : UInt64) (reference : LobReference) (s : Session σ) :
    List Value :=
  [.long stream.toInt64, .long (executionId e s), .string reference.id]

/-- Asks for the next chunk of a stream. -/
def requestChunk (e : Nat) (stream : UInt64) (reference : LobReference) : Op σ Handle := do
  ensureExecutionOpen e
  invoke link .dqp "requestNextLobChunk" (streamArgs e stream reference (← get))

/-- Tells the server that a stream is released. -/
def sendRelease (e : Nat) (stream : UInt64) (reference : LobReference) : Op σ Unit := do
  let _ ← call link .dqp "closeLobChunkStream" (streamArgs e stream reference (← get))

/-- Releases a stream whose release its streamer has claimed. Closing the execution or the session
releases it as well. -/
def releaseStream (e : Nat) (stream : UInt64) (reference : LobReference) : Op σ Unit := do
  let s ← get
  if !s.isExecutionClosed e && !s.isClosed then
    sendRelease link e stream reference

/-- Closes a stream for its streamer, and claims its release; says whether the claim succeeded. -/
def claimClosed (e : Nat) (stream : UInt64) : Op σ Bool := do
  let s ← get
  let marks := s.marks e stream
  set (s.setMarks e stream ⟨true, true⟩)
  return !marks.released

/-- Closes streams one after another, and releases those that nobody else does. -/
def closeStreams (e : Nat) : List LobStream → Op σ Unit
  | [] => return
  | opened :: rest => do
    if ← claimClosed e opened.id then
      tryCatch (sendRelease link e opened.id opened.reference) fun _ => return
    closeStreams e rest

/-- Marks streams as closed without releasing them. -/
def abandonStreams (e : Nat) (streams : List LobStream) (s : Session σ) : Session σ :=
  streams.foldl
    (fun s opened => s.setMarks e opened.id { s.marks e opened.id with closed := true }) s

/-- Closes an execution with its streams. -/
def closeExecution (e : Nat) : Op σ Unit := do
  let s ← get
  match s.executions[e]? with
  | none => return
  | some execution =>
    if !execution.closed then
      set (s.changeExecution e fun execution => { execution with closed := true })
      if s.isClosed then
        modify (abandonStreams e execution.unreleased)
      else
        closeStreams link e execution.unreleased
        let _ ← call link .dqp "closeRequest" [.long execution.id]

/-- Waits for a reply whose value is taken for something else. -/
def waitAs {α : Type} (take : Value → Except Fault α) (timeout : Duration) (handle : Handle)
    (s : Session σ) : Except Fault α × Handle × Session σ :=
  let (outcome, handle, s) := s.wait link timeout handle
  (outcome >>= take, handle, s)

/-- An execution as the source of a cursor. -/
def batchSource (e : Nat) : Cursor.BatchSource (Session σ) Handle where
  request := requestBatch link e
  wait := waitAs link Value.results
  abandon := abandon
  close := closeExecution link e

/-- An execution as the source of streamers. -/
def chunkSource (e : Nat) : Lob.ChunkSource (Session σ) Handle where
  request := requestChunk link e
  wait := waitAs link Value.chunk
  abandon := abandon
  release := releaseStream link e
  marks := marks e
  setMarks := setMarks e

end QueryClient.Session
