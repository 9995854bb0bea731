import QueryClient.Lob.Streamer

/-!
# A scripted source of chunks

A source that follows a script: each request is refused, or accepted with the outcomes that
successive waits for it give. It keeps a log of what it was asked.
-/

namespace QueryClient.Lob

/-- What becomes of one request. -/
inductive ScriptedRequest where
  | refused (fault : Fault)
  | accepted (waits : List (Except Fault Chunk))

/-- What a scripted source was asked, for which stream and object. -/
inductive ChunkEvent where
  | requested (stream : UInt64) (object : String)
  | released (stream : UInt64) (object : String)
deriving DecidableEq, Repr

/-- A script with its log, the last event first, and the marks of its one stream. -/
structure Script where
  requests : List ScriptedRequest
  closeFault : Option Fault
  log : List ChunkEvent
  marks : Marks

namespace Script

/-- Answers a request as the script says; past the script there is nothing to wait for. -/
def request (stream : UInt64) (reference : LobReference) (s : Script) :
    Except Fault (List (Except Fault Chunk)) × Script :=
  let (answer, rest) := match s.requests with
    | [] => (ScriptedRequest.accepted [], [])
    | answer :: rest => (answer, rest)
  let s := { s with requests := rest, log := .requested stream reference.id :: s.log }
  match answer with
  | .refused fault => (.error fault, s)
  | .accepted waits => (.ok waits, s)

/-- The next outcome of a request; one without further outcomes is spent. -/
def wait (outcomes : List (Except Fault Chunk)) (s : Script) :
    Except Fault Chunk × List (Except Fault Chunk) × Script :=
  match outcomes with
  | [] => (.error (.protocol (.stated "reply already consumed")), [], s)
  | outcome :: rest => (outcome, rest, s)

def release (stream : UInt64) (reference : LobReference) (s : Script) :
    Except Fault Unit × Script :=
  let s := { s with log := .released stream reference.id :: s.log }
  match s.closeFault with
  | some fault => (.error fault, s)
  | none => (.ok (), s)

def source : ChunkSource Script (List (Except Fault Chunk)) where
  request := request
  wait := fun _ => wait
  abandon := fun _ s => s
  release := release
  marks := fun _ s => s.marks
  setMarks := fun _ marks s => { s with marks := marks }

end Script

end QueryClient.Lob
