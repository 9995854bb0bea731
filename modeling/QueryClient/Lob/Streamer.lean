import QueryClient.Attempt
import QueryClient.Lob.Content
import QueryClient.Message.Parts

/-!
# Streaming a large object

A streamer reads the content of a large object that stays on the server, one chunk at a time. A read
first makes bytes available: it asks for the next chunk only when the last one is used up, and after
a timeout it waits for the chunk it has already asked for. The remote stream is released once, when
the last chunk arrives or the streamer is closed, whichever comes first. Whether a stream is closed
and whether it is released is marked where its owner sees it too, and may mark it as well.
-/

namespace QueryClient.Lob

/-- What a streamer and its owner know about a stream together. -/
structure Marks where
  closed : Bool
  released : Bool
deriving DecidableEq, Repr

/-- The server side of streams, as operations on the state `σ` with handles `H`. -/
structure ChunkSource (σ H : Type) where
  /-- Asks for the next chunk. -/
  request : UInt64 → LobReference → σ → Except Fault H × σ
  /-- Waits for a chunk. After a timeout it is still outstanding, after anything else it is spent.
  -/
  wait : Duration → H → σ → Except Fault Chunk × H × σ
  /-- Gives up a chunk. -/
  abandon : H → σ → σ
  /-- Releases the remote stream. -/
  release : UInt64 → LobReference → σ → Except Fault Unit × σ
  marks : UInt64 → σ → Marks
  setMarks : UInt64 → Marks → σ → σ

end Lob

/-- A reader over a remote object, with handles of type `H` on chunks. -/
structure Streamer (H : Type) where
  stream : UInt64
  reference : LobReference
  /-- The deadline of one chunk. -/
  timeout : Duration
  /-- The bytes of the chunk that have not been delivered. -/
  buffer : Bytes
  lastSeen : Bool
  flight : Option H
  /-- How many bytes have been delivered. -/
  bytesRead : Nat

namespace Streamer

open Attempt Lob

variable {σ H α : Type}

/-- A streamer that has read nothing. -/
def start (stream : UInt64) (reference : LobReference) (timeout : Duration) : Streamer H where
  stream := stream
  reference := reference
  timeout := timeout
  buffer := []
  lastSeen := false
  flight := none
  bytesRead := 0

def description (s : Streamer H) (marks : Marks) : String :=
  Text.record "LobStreamer" [
    ("stream_id", s.stream.toNat.repr),
    ("reference", Text.quoted s.reference.id),
    ("last_seen", Text.truth s.lastSeen),
    ("closed", Text.truth marks.closed)]

/-- A streamer with its source. -/
structure Desk (σ H : Type) where
  streamer : Streamer H
  source : σ

/-- An operation on a streamer and its source; a failed one keeps what it has done. -/
abbrev Reading (σ H α : Type) := Attempt (Desk σ H) α

def streamer : Reading σ H (Streamer H) := do
  return (← get).streamer

def update (f : Streamer H → Streamer H) : Reading σ H Unit :=
  modify fun desk => { desk with streamer := f desk.streamer }

def ask (operation : σ → α × σ) : Reading σ H α := do
  let desk ← get
  let (a, source) := operation desk.source
  set { desk with source := source }
  return a

variable (source : ChunkSource σ H)

def marks : Reading σ H Marks := do
  let desk ← get
  return source.marks desk.streamer.stream desk.source

def mark (f : Marks → Marks) : Reading σ H Unit := do
  let s ← streamer
  let marked ← marks source
  ask fun state => ((), source.setMarks s.stream (f marked) state)

def ensureOpen : Reading σ H Unit := do
  if (← marks source).closed then
    fail .streamClosed

/-- Claims the release of the remote stream, which succeeds once. -/
def claimRelease : Reading σ H Bool := do
  let marked ← marks source
  mark source fun m => { m with released := true }
  return !marked.released

/-- Releases the remote stream after its last chunk; the server may already have done so. -/
def releaseExhausted : Reading σ H Unit := do
  if ← claimRelease source then
    let s ← streamer
    let _ ← ask (source.release s.stream s.reference)

/-- Asks for a chunk unless one is under way. -/
def requestChunk : Reading σ H Unit := do
  let s ← streamer
  if s.flight.isNone then
    match ← ask (source.request s.stream s.reference) with
    | .error fault => fail fault
    | .ok call => update fun s => { s with flight := some call }

/-- Waits for the chunk that is under way. -/
def awaitChunk : Reading σ H Unit := do
  let s ← streamer
  match s.flight with
  | none => return
  | some call =>
    let (outcome, call) ← ask fun state =>
      let (outcome, call, state) := source.wait s.timeout call state
      ((outcome, call), state)
    match outcome with
    | .error fault =>
      update fun s => { s with flight := some call }
      fail fault
    | .ok chunk =>
      update fun s => { s with flight := none, buffer := chunk.data }
      if chunk.isLast then
        update fun s => { s with lastSeen := true }
        releaseExhausted source

/-- Makes bytes available; false at the end of the stream. -/
def fill : (rounds : Nat) → Reading σ H Bool
  | 0 => throw .outOfRounds
  | rounds + 1 => do
    ensureOpen source
    let s ← streamer
    if !s.buffer.isEmpty then
      return true
    if s.lastSeen then
      return false
    requestChunk source
    awaitChunk source
    fill rounds

variable (rounds : Nat)

/-- Delivers up to `n` of the bytes that are available. -/
def deliver (n : Nat) : Reading σ H Bytes := do
  let s ← streamer
  let bytes := s.buffer.take n
  update fun s => { s with buffer := s.buffer.drop n, bytesRead := s.bytesRead + bytes.length }
  return bytes

/-- Reads up to `n` bytes, and no further than the chunk goes; none at the end of the stream. -/
def read (n : Nat) : Reading σ H Bytes := do
  if n = 0 then
    ensureOpen source
    return []
  if ← fill source rounds then
    deliver n
  else
    return []

/-- Reads one byte; none at the end of the stream. -/
def readByte : Reading σ H (Option UInt8) := do
  if ← fill source rounds then
    return (← deliver 1).head?
  else
    return none

def ensureCharacters : Reading σ H Unit := do
  let s ← streamer
  if !s.reference.kind.isCharacter then
    fail (.conversion (.notCharacters s.reference.kind))

/-- How many bytes follow a lead byte, going by its highest bits alone. -/
def following (lead : UInt8) : Option Nat :=
  let n := lead.toNat
  if n < 0x80 then some 0
  else if 0xC0 ≤ n && n ≤ 0xDF then some 1
  else if 0xE0 ≤ n && n ≤ 0xEF then some 2
  else if 0xF0 ≤ n && n ≤ 0xF7 then some 3
  else none

/-- Reads the `n` bytes that a character has left. -/
def readFollowing : (n : Nat) → (before : Bytes) → Reading σ H Bytes
  | 0, before => return before.reverse
  | n + 1, before => do
    match ← readByte source rounds with
    | none => fail (.conversion .cutCharacter)
    | some byte => readFollowing n (byte :: before)

/-- Reads one character, put together across chunks; none at the end of the stream. -/
def readChar : Reading σ H (Option Char) := do
  ensureCharacters
  match ← readByte source rounds with
  | none => return none
  | some lead =>
    match following lead with
    | none => fail (.conversion (.leadByte lead))
    | some n =>
      let rest ← readFollowing source rounds n []
      match Utf8.front lead rest with
      | .char c _ => return some c
      | _ => fail (.conversion .badCharacter)

/-- Reads chunks to the end of the stream; `before` holds those already read, the last one first. -/
def readChunks : (chunks : Nat) → (before : List Bytes) → Reading σ H Bytes
  | 0, _ => throw .outOfRounds
  | chunks + 1, before => do
    if ← fill source rounds then
      let s ← streamer
      let bytes ← deliver s.buffer.length
      readChunks chunks (bytes :: before)
    else
      return before.reverse.flatten

/-- Reads the rest of the stream. -/
def readToEnd : Reading σ H Bytes :=
  readChunks source rounds rounds []

/-- Reads the rest of the stream as text. -/
def readToString : Reading σ H String := do
  ensureCharacters
  let bytes ← readToEnd source rounds
  match Utf8.decode bytes with
  | .ok text => return text
  | .error defect => fail (.conversion (.invalidText defect))

/-- Closes the streamer and releases the remote stream. A chunk under way is given up. -/
def close : Reading σ H Unit := do
  if !(← marks source).closed then
    mark source fun m => { m with closed := true }
    let s ← streamer
    update fun s => { s with flight := none, buffer := [] }
    match s.flight with
    | some call => ask fun state => ((), source.abandon call state)
    | none => pure ()
    if ← claimRelease source then
      match ← ask (source.release s.stream s.reference) with
      | .error fault => fail fault
      | .ok () => return

/-- Reads characters up to the end of the stream or a fault. -/
def readChars : (most : Nat) → (before : List Char) →
    StateM (Desk σ H) (String × Except Stop Unit)
  | 0, before => return (String.ofList before.reverse, .error .outOfRounds)
  | most + 1, before => do
    match ← (readChar source rounds).run with
    | .ok (some c) => readChars most (c :: before)
    | .ok none => return (String.ofList before.reverse, .ok ())
    | .error stop => return (String.ofList before.reverse, .error stop)

end Streamer

end QueryClient
