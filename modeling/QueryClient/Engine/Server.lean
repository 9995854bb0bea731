import QueryClient.Engine.Plan
import QueryClient.Session.Link
import QueryClient.Value.Access
import QueryClient.Wire.Arrivals

/-!
# An engine in memory

The other end of a link: an engine that works through what a client sends, answers each call as its
plan has it, and keeps a list of what it was sent. Time passes only when the client waits; the clock
then goes straight to the next moment at which the engine has something to send.
-/

namespace QueryClient

/-- An engine, and what is under way between it and its client. -/
structure Engine where
  plan : Engine.Plan
  now : Instant
  /-- What the client has sent and the engine has not looked at. -/
  incoming : List Bytes
  listening : Bool
  heard : List Message
  /-- How often each method was called. -/
  counts : List (String × Nat)
  /-- How much of its object each stream has been handed. -/
  offsets : List (Int64 × Nat)
  /-- What is still to be sent, by moment. -/
  due : List (Instant × Bytes)
  /-- What has been sent and not been received, the last piece first. -/
  sent : List Bytes
  /-- Whether the engine has hung up, and whether the client has been told. -/
  hungUp : Bool
  hangUpTold : Bool

namespace Engine

/-- The replies of an engine are encoded in the standard way. -/
def encoding : Frame.Options := ⟨true, Frame.defaultMax⟩

def frames (messages : List Message) : Bytes :=
  messages.flatMap fun m =>
    match Frame.encode encoding m with
    | .ok frame => frame
    | .error _ => []

/-- Sends bytes, unless the engine has hung up. -/
def send (bytes : Bytes) (e : Engine) : Engine :=
  if e.hungUp || bytes.isEmpty then e else { e with sent := bytes :: e.sent }

def hangUp (e : Engine) : Engine :=
  { e with hungUp := true, listening := false }

/-- Adds to what is due, behind what is due at the same moment. -/
def schedule (moment : Instant) (bytes : Bytes) :
    List (Instant × Bytes) → List (Instant × Bytes)
  | [] => [(moment, bytes)]
  | (first, content) :: rest =>
    if first ≤ moment then (first, content) :: schedule moment bytes rest
    else (moment, bytes) :: (first, content) :: rest

/-- Sends bytes after some time. -/
def sendAfter (delay : Duration) (bytes : Bytes) (e : Engine) : Engine :=
  if delay.isZero then e.send bytes
  else { e with due := schedule (e.now + delay.nanoseconds) bytes e.due }

/-- The next piece of a stream. -/
def nextChunk (stream : Int64) (object : String) (e : Engine) :
    Except ServerException Value × Engine :=
  match e.plan.lobs.lookup object with
  | none => (.error ⟨none, none, "unknown lob"⟩, e)
  | some lob =>
    let offset := (e.offsets.lookup stream).getD 0
    let reached := offset + lob.pieceSize
    let piece : Chunk :=
      ⟨(lob.content.drop offset).take lob.pieceSize, lob.content.length ≤ reached⟩
    (.ok (.message (.chunk piece)), { e with offsets := (stream, reached) :: e.offsets })

/-- The number that a call was given as its i-th argument. -/
def argument (call : Invocation) (i : Nat) : Int :=
  match call.args[i]?.bind Value.long? with
  | some n => n.toInt
  | none => 0

/-- The rows that a request asks for at first. -/
def firstRows (call : Invocation) : Int :=
  match call.args with
  | _ :: .message (.request request) :: _ => request.fetchSize.toNat
  | _ => 0

/-- What an engine answers to a call by itself. -/
def answer (call : Invocation) (e : Engine) : Except ServerException Value × Engine :=
  match call.method with
  | "logon" | "continueLogon" => (.ok (.message (.logonResult ⟨"s-1", "analyst", none⟩)), e)
  | "ping" | "logoff" | "closeRequest" | "closeLobChunkStream" => (.ok .null, e)
  | "cancelRequest" => (.ok (.boolean true), e)
  | "executeRequest" =>
    (.ok (.message (.results (e.plan.first.getD (firstBatch e.plan.total (firstRows call))))), e)
  | "processCursorRequest" =>
    (.ok (.message (.results (tableBatch e.plan.total (argument call 1) (argument call 2)))), e)
  | "requestNextLobChunk" =>
    let object := (call.args[2]?.bind Value.string?).getD ""
    e.nextChunk (Int64.ofInt (argument call 0)) object
  | method => (.error ⟨none, none, s!"unknown method {method}"⟩, e)

/-- Sends the reply to a call after some time. -/
def replyAfter (delay : Duration) (key : UInt64) (outcome : Except ServerException Value)
    (e : Engine) : Engine :=
  e.sendAfter delay (frames [.reply ⟨key, outcome⟩])

/-- Does on a call what the plan has for it. -/
def handle (call : Invocation) (e : Engine) : Engine :=
  let before := (e.counts.lookup call.method).getD 0
  let e := { e with counts := (call.method, before + 1) :: e.counts }
  let action := e.plan.action call.method before
  match action.deed with
  | .serve =>
    let (outcome, e) := e.answer call
    e.replyAfter action.delay call.key outcome
  | .ignore => e
  | .hangUp => e.hangUp
  | .reply key outcome => e.replyAfter action.delay (key.getD call.key) outcome
  | .raw bytes => e.sendAfter action.delay bytes
  | .say messages => e.sendAfter action.delay (frames messages)

/-- Works through what has come in. An engine that cannot read its client hangs up. -/
def hear : List (Except Fault Message) → Engine → Engine
  | [], e => e
  | arrival :: rest, e =>
    if e.listening then
      match arrival with
      | .error _ => hear rest e.hangUp
      | .ok m =>
        let e := { e with heard := m :: e.heard }
        match m with
        | .invocation call => hear rest (e.handle call)
        | _ => hear rest e
    else e

/-- Works through what the client has sent. -/
def work (e : Engine) : Engine :=
  let flow : Inflow := ⟨e.incoming, .quiet⟩
  let (arrivals, rest) := flow.arrivals e.plan.allowed Frame.defaultMax
  hear arrivals { e with incoming := rest.pieces }

/-- Whether there is something that the client has not received. -/
def hasNews (e : Engine) : Bool :=
  !e.sent.isEmpty || (e.hungUp && !e.hangUpTold)

/-- Hands over what the client has not received. -/
def handOver (e : Engine) : Inflow × Engine :=
  (⟨e.sent.reverse, if e.hungUp then .closed else .quiet⟩,
    { e with sent := [], hangUpTold := e.hungUp })

/-- Lets time pass up to a moment, or to the first one before at which something is sent. -/
def passUntil (moment : Instant) : (due : List (Instant × Bytes)) → Engine → Inflow × Engine
  | [], e =>
    if e.hasNews then handOver { e with due := [] }
    else handOver { e with due := [], now := max e.now moment }
  | (first, bytes) :: rest, e =>
    if e.hasNews then handOver { e with due := (first, bytes) :: rest }
    else if first ≤ moment then passUntil moment rest (send bytes { e with now := max e.now first })
    else handOver { e with due := (first, bytes) :: rest, now := max e.now moment }

/-- Works, and lets time pass until something is sent, but no longer than up to a moment. -/
def await (moment : Instant) (e : Engine) : Inflow × Engine :=
  let e := e.work
  passUntil moment e.due e

/-- An engine that has just been reached. -/
def start (plan : Plan) : Engine :=
  let e : Engine :=
    { plan := plan, now := 0, incoming := [], listening := true, heard := [], counts := []
      offsets := [], due := [], sent := [], hungUp := false, hangUpTold := false }
  match plan.opening with
  | .greets m => e.send (frames [m])
  | .raw bytes => e.send bytes
  | .silent => e
  | .hangsUp => e.hangUp

/-- The client's end of the link. -/
def link : Link Engine where
  now := now
  accepts := fun _ => true
  send := fun bytes e => { e with incoming := e.incoming ++ [bytes] }
  await := await
  shutDown := id

/-- The calls among what the engine has heard, in order. -/
def callsHeard (e : Engine) : List Invocation :=
  e.heard.reverse.filterMap fun
    | .invocation call => some call
    | _ => none

/-- Forgets what it has heard. -/
def forgetHeard (e : Engine) : Engine :=
  { e with heard := [] }

end Engine

end QueryClient
