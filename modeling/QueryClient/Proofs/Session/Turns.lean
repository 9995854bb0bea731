import QueryClient.Proofs.Session.Sending

/-!
# Taking turns

The tasks that read the streams of an execution and the one that closes it share a session, and any
of them may go on whenever another pauses. A task pauses where a call that is ready waits until the
link takes it, and where a reply is waited for. What it does in between is one turn, of the same
steps as the operation that it runs. Turns come in any order, and between them something may come
in.
-/

namespace QueryClient.Session

variable {σ : Type}

/-! ## Pauses -/

/-- Where a call is that a task has paused at. -/
inductive Pause where
  | sending (call : Invocation)
  | waiting (handle : Handle)

namespace Pause

/-- The call that has not been sent. -/
def unsent : Pause → List Invocation
  | sending call => [call]
  | waiting _ => []

/-- Goes on with a call if it can: to the next pause, or past the last one. -/
def resume (link : Link σ) : Pause → Session σ → Option Pause × Session σ
  | sending call, s =>
    match exec (post link call) s with
    | (.ok (), s) => (some (.waiting call.handle), s)
    | (.error _, s) => (none, s)
  | waiting handle, s =>
    match s.calls.outcome? handle.key with
    | some _ => (none, { s with calls := s.calls.forget handle.key })
    | none => (some (.waiting handle), s)

/-- Waits no longer for a reply. -/
def timeOut : Pause → Session σ → Option Pause × Session σ
  | sending call, s => (some (.sending call), s)
  | waiting handle, s => (none, s.abandon handle)

end Pause

variable (link : Link σ) (e : Nat)

/-! ## Streamers -/

/-- What the task of a streamer is at. -/
inductive Stage where
  | idle
  /-- The request for a chunk has not been sent. -/
  | asking (call : Invocation)
  /-- The chunk under way is waited for. -/
  | expecting
  | releasing (pause : Pause)
  /-- The streamer has been dropped. -/
  | gone

/-- A streamer with its task. -/
structure Seat where
  streamer : Streamer Handle
  stage : Stage

/-- What the task of a streamer may do next. A read starts with one turn for each chunk, and ends
with one that delivers bytes. -/
inductive Seat.Move where
  | read
  | deliver (n : Nat)
  | close
  | drop
  | resume
  | timeOut
deriving DecidableEq, Repr

namespace Seat

/-- The call of the task that has not been sent. -/
def unsent (seat : Seat) : List Invocation :=
  match seat.stage with
  | .asking call => [call]
  | .releasing pause => pause.unsent
  | _ => []

/-- Whether the task is between two operations, or done with the last. -/
def isResting (seat : Seat) : Bool :=
  match seat.stage with
  | .idle => true
  | .gone => true
  | _ => false

/-- Makes the release ready that the streamer has claimed, unless the execution or the session is
closed. -/
def release (streamer : Streamer Handle) (s : Session σ) : Seat × Session σ :=
  if !s.isExecutionClosed e && !s.isClosed then
    match exec (ready .dqp "closeLobChunkStream"
      (streamArgs e streamer.stream streamer.reference s)) s with
    | (.ok call, s) => (⟨streamer, .releasing (.sending call)⟩, s)
    | (.error _, s) => (⟨streamer, .idle⟩, s)
  else (⟨streamer, .idle⟩, s)

/-- Claims the release, and makes it ready if the claim succeeds. -/
def claim (streamer : Streamer Handle) (s : Session σ) : Seat × Session σ :=
  let marks := s.marks e streamer.stream
  let claimed := s.setMarks e streamer.stream { marks with released := true }
  if marks.released then (⟨streamer, .idle⟩, claimed) else release e streamer claimed

/-- Makes bytes available: at once, or by a chunk that is asked for or has been. -/
def beginRead (streamer : Streamer Handle) (s : Session σ) : Seat × Session σ :=
  if (s.marks e streamer.stream).closed || !streamer.buffer.isEmpty || streamer.lastSeen then
    (⟨streamer, .idle⟩, s)
  else
    match streamer.flight with
    | some handle => (⟨streamer, if handle.finished then .idle else .expecting⟩, s)
    | none =>
      if s.isExecutionClosed e then (⟨streamer, .idle⟩, s)
      else
        match exec (ready .dqp "requestNextLobChunk"
          (streamArgs e streamer.stream streamer.reference s)) s with
        | (.ok call, s) => (⟨streamer, .asking call⟩, s)
        | (.error _, s) => (⟨streamer, .idle⟩, s)

/-- Takes the chunk that is waited for, if it has come in. -/
def takeChunk (streamer : Streamer Handle) (s : Session σ) : Seat × Session σ :=
  match streamer.flight with
  | none => (⟨streamer, .idle⟩, s)
  | some handle =>
    match s.calls.outcome? handle.key with
    | none => (⟨streamer, .expecting⟩, s)
    | some outcome =>
      let s := { s with calls := s.calls.forget handle.key }
      match conclude outcome >>= Value.chunk with
      | .error _ =>
        (⟨{ streamer with flight := some { handle with finished := true } }, .idle⟩, s)
      | .ok chunk =>
        let streamer := { streamer with flight := none, buffer := chunk.data }
        if chunk.isLast then claim e { streamer with lastSeen := true } s
        else (⟨streamer, .idle⟩, s)

/-- Gives up the chunk under way. -/
def abandonFlight (streamer : Streamer Handle) (s : Session σ) : Session σ :=
  match streamer.flight with
  | some handle => s.abandon handle
  | none => s

def beginClose (streamer : Streamer Handle) (s : Session σ) : Seat × Session σ :=
  let marks := s.marks e streamer.stream
  if marks.closed then (⟨streamer, .idle⟩, s)
  else
    claim e { streamer with flight := none, buffer := [] }
      (abandonFlight streamer (s.setMarks e streamer.stream { marks with closed := true }))

/-- One turn of a task. A move that the task is not up to changes nothing. -/
def act : Move → Seat → Session σ → Seat × Session σ
  | .read, ⟨streamer, .idle⟩, s => beginRead e streamer s
  | .deliver n, ⟨streamer, .idle⟩, s =>
    (⟨{ streamer with
        buffer := streamer.buffer.drop n
        bytesRead := streamer.bytesRead + (streamer.buffer.take n).length }, .idle⟩, s)
  | .close, ⟨streamer, .idle⟩, s => beginClose e streamer s
  | .drop, ⟨streamer, .idle⟩, s => (⟨streamer, .gone⟩, abandonFlight streamer s)
  | .resume, ⟨streamer, .asking call⟩, s =>
    match exec (post link call) s with
    | (.ok (), s) => (⟨{ streamer with flight := some call.handle }, .expecting⟩, s)
    | (.error _, s) => (⟨streamer, .idle⟩, s)
  | .resume, ⟨streamer, .expecting⟩, s => takeChunk e streamer s
  | .resume, ⟨streamer, .releasing pause⟩, s =>
    let (next, s) := pause.resume link s
    (⟨streamer, next.elim .idle .releasing⟩, s)
  | .timeOut, ⟨streamer, .expecting⟩, s => (⟨streamer, .idle⟩, s)
  | .timeOut, ⟨streamer, .releasing pause⟩, s =>
    let (next, s) := pause.timeOut s
    (⟨streamer, next.elim .idle .releasing⟩, s)
  | _, seat, s => (seat, s)

end Seat

/-! ## The execution -/

/-- How far the close of an execution has come. -/
inductive Closing where
  | notBegun
  /-- One stream is being released, and the rest after it. -/
  | releasing (id : Int64) (pause : Pause) (rest : List LobStream)
  | ending (pause : Pause)
  | done

namespace Closing

/-- The call of the closing task that has not been sent. -/
def unsent : Closing → List Invocation
  | releasing _ pause _ => pause.unsent
  | ending pause => pause.unsent
  | _ => []

/-- The streams whose turn has not come. -/
def rest : Closing → List LobStream
  | releasing _ _ rest => rest
  | _ => []

def isDone : Closing → Bool
  | done => true
  | _ => false

/-- Goes on to the first stream whose release it can claim and make ready, and to the end of the
execution behind the last one. -/
def advance (id : Int64) : List LobStream → Session σ → Closing × Session σ
  | [], s =>
    match exec (ready .dqp "closeRequest" [.long id]) s with
    | (.ok call, s) => (.ending (.sending call), s)
    | (.error _, s) => (.done, s)
  | opened :: rest, s =>
    let marks := s.marks e opened.id
    let claimed := s.setMarks e opened.id ⟨true, true⟩
    if marks.released then advance id rest claimed
    else
      match exec (ready .dqp "closeLobChunkStream"
        (streamArgs e opened.id opened.reference claimed)) claimed with
      | (.ok call, s) => (.releasing id (.sending call) rest, s)
      | (.error _, s) => advance id rest s

/-- Closes an execution, unless that has begun. It goes through the streams that are open in any
order. -/
def start (order : List LobStream) (closing : Closing) (s : Session σ) : Closing × Session σ :=
  match s.executions[e]? with
  | none => (closing, s)
  | some execution =>
    if execution.closed || !order.isPerm execution.unreleased then (closing, s)
    else
      let closed := s.changeExecution e fun execution => { execution with closed := true }
      if s.isClosed then (.done, abandonStreams e order closed)
      else advance e execution.id order closed

/-- Goes on from a pause to the next one, or past the call. -/
def proceed (step : Pause → Session σ → Option Pause × Session σ) :
    Closing → Session σ → Closing × Session σ
  | releasing id pause rest, s =>
    match step pause s with
    | (some next, s) => (.releasing id next rest, s)
    | (none, s) => advance e id rest s
  | ending pause, s =>
    let (next, s) := step pause s
    (next.elim .done .ending, s)
  | closing, s => (closing, s)

end Closing

/-! ## Scenes -/

/-- An execution in the hands of its tasks: the session, the streamers in the order in which they
were opened, and the task that closes the execution. -/
structure Scene (σ : Type) where
  session : Session σ
  seats : List Seat
  closing : Closing

/-- Whose turn it is. -/
inductive Turn where
  | openLob (reference : LobReference)
  | act (i : Nat) (move : Seat.Move)
  | closeExecution (order : List LobStream)
  | resume
  | timeOut
  | listen (moment : Instant)
deriving DecidableEq, Repr

namespace Scene

/-- Before anything has been opened on an execution. -/
def start (s : Session σ) : Scene σ := ⟨s, [], .notBegun⟩

/-- The calls that are ready and have not been sent. -/
def unsent (scene : Scene σ) : List Invocation :=
  scene.closing.unsent ++ scene.seats.flatMap Seat.unsent

/-- The scene once a streamer has taken its turn. -/
def seated (scene : Scene σ) (i : Nat) (result : Seat × Session σ) : Scene σ :=
  { scene with session := result.2, seats := scene.seats.set i result.1 }

/-- The scene once the closing task has taken its turn. -/
def closed (scene : Scene σ) (result : Closing × Session σ) : Scene σ :=
  { scene with session := result.2, closing := result.1 }

def openLob (reference : LobReference) (scene : Scene σ) : Scene σ :=
  match exec (Session.openLob e reference) scene.session with
  | (.ok streamer, s) => { scene with session := s, seats := scene.seats ++ [⟨streamer, .idle⟩] }
  | (.error _, s) => { scene with session := s }

def turn (scene : Scene σ) : Turn → Scene σ
  | .openLob reference => scene.openLob e reference
  | .act i move =>
    match scene.seats[i]? with
    | some seat => scene.seated i (seat.act link e move scene.session)
    | none => scene
  | .closeExecution order => scene.closed (scene.closing.start e order scene.session)
  | .resume => scene.closed (scene.closing.proceed e (Pause.resume link) scene.session)
  | .timeOut => scene.closed (scene.closing.proceed e Pause.timeOut scene.session)
  | .listen moment => { scene with session := listen link moment scene.session }

/-- The scene after some turns. -/
def run (turns : List Turn) (scene : Scene σ) : Scene σ :=
  turns.foldl (turn link e) scene

end Scene

end QueryClient.Session
