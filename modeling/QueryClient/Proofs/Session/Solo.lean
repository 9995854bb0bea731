import Mathlib.Logic.Relation
import QueryClient.Proofs.Lob.Resumption
import QueryClient.Proofs.Session.Streams
import QueryClient.Proofs.Session.Turns

/-!
# A task that nobody interrupts

An operation that goes through with no other task in between is a run of the turns of its own task,
and of what comes in between them. So the turns are the steps that the operations are made of, and
what holds whatever turns are taken holds of operations that are completed one after another.
-/

namespace QueryClient.Session

open Relation (ReflTransGen)

variable {σ : Type}

/-! ## Calls -/

/-- What may come next for a call that is under way. -/
inductive Pause.Step (link : Link σ) : Option Pause × Session σ → Option Pause × Session σ → Prop
  | resume (pause : Pause) (s : Session σ) : Step link (some pause, s) (pause.resume link s)
  | timeOut (pause : Pause) (s : Session σ) : Step link (some pause, s) (pause.timeOut s)
  | listen (pause : Pause) (s : Session σ) (moment : Instant) :
    Step link (some pause, s) (some pause, Session.listen link moment s)

section Calls

variable {link : Link σ} {service : Service} {method : String} {args : List Value} {s t : Session σ}

theorem exec_call : exec (call link service method args) s =
    match exec (ready service method args) s with
    | (.error fault, t) => (.error fault, t)
    | (.ok call, t) =>
      match exec (post link call) t with
      | (.error fault, u) => (.error fault, u)
      | (.ok (), u) =>
        let (outcome, handle, v) := u.wait link s.settings.callTimeout call.handle
        (outcome, v.abandon handle) := by
  rw [call, exec_bind, exec_get]
  simp only [callWithin, exec_bind, exec_invoke]
  cases exec (ready service method args) s with
  | mk outcome t =>
    cases outcome with
    | error fault => rfl
    | ok call =>
      dsimp only
      cases exec (post link call) t with
      | mk sent u =>
        cases sent with
        | error fault => rfl
        | ok => simp

/-- The session once a call that cannot be encoded has been given up. -/
def givenUp (method : String) (s : Session σ) : Session σ :=
  (entered { s.calls with waiting := (s.lastKey + 1) :: s.calls.waiting } s).abandon
    ⟨s.lastKey + 1, method, false⟩

theorem exec_call_of_not_encodes (hopen : s.isClosed = false)
    (h : ¬ Invocation.Encodes s.settings ⟨s.lastKey + 1, service, method, args⟩) :
    (exec (call link service method args) s).2 = s.givenUp method := by
  have hregister : s.calls.register (s.lastKey + 1) =
      .ok { s.calls with waiting := (s.lastKey + 1) :: s.calls.waiting } := by
    rw [Calls.register, if_neg (by simpa [isClosed] using hopen)]
  rw [exec_call, exec_ready, hregister]
  cases hencode : Frame.encode s.settings.encoding
      (.invocation ⟨s.lastKey + 1, service, method, args⟩) with
  | ok frame => exact absurd ⟨frame, hencode⟩ h
  | error fault =>
    simp only [hencode]
    rfl

variable (link) in
/-- A call that is ready comes to its end in steps. -/
theorem completes_call {call : Invocation}
    (h : exec (ready service method args) s = (.ok call, t)) :
    ReflTransGen (Pause.Step link) (some (.sending call), t)
      (none, (exec (Session.call link service method args) s).2) := by
  have hresume : Pause.Step link (some (.sending call), t) (Pause.resume link (.sending call) t) :=
    .resume (.sending call) t
  rw [exec_call, h]
  rw [Pause.resume] at hresume
  dsimp only
  generalize exec (post link call) t = posted at hresume ⊢
  obtain ⟨outcome, u⟩ := posted
  cases outcome with
  | error fault => exact .single hresume
  | ok =>
    have hopen : call.handle.finished = false := rfl
    have hawaited := awaited_wait (P := fun v => ReflTransGen (Pause.Step link)
        (some (.waiting call.handle), u) (some (.waiting call.handle), v))
      (fun v hv moment => hv.tail (.listen _ v moment)) s.settings.callTimeout hopen .refl
    dsimp only at hresume ⊢
    generalize u.wait link s.settings.callTimeout call.handle = waited at hawaited ⊢
    refine .head hresume ?_
    cases hawaited with
    | @answered v outcome hkept houtcome =>
      have hlast : Pause.Step link (some (.waiting call.handle), v)
          (Pause.resume link (.waiting call.handle) v) := .resume (.waiting call.handle) v
      rw [Pause.resume, houtcome] at hlast
      exact hkept.tail hlast
    | @timedOut v hkept => exact hkept.tail (.timeOut _ v)

end Calls

/-! ## Streamers -/

/-- What may come next for a streamer. -/
inductive Seat.Step (link : Link σ) (e : Nat) : Seat × Session σ → Seat × Session σ → Prop
  | act (move : Seat.Move) (seat : Seat) (s : Session σ) :
    Step link e (seat, s) (seat.act link e move s)
  | listen (seat : Seat) (s : Session σ) (moment : Instant) :
    Step link e (seat, s) (seat, Session.listen link moment s)

section Streamers

open Streamer

variable {link : Link σ} {e : Nat} {streamer : Streamer Handle} {s : Session σ}

theorem Pause.Step.seat {p q : Option Pause × Session σ} (h : Pause.Step link p q) :
    Seat.Step link e (⟨streamer, p.1.elim .idle .releasing⟩, p.2)
      (⟨streamer, q.1.elim .idle .releasing⟩, q.2) := by
  cases h with
  | resume pause s => exact .act .resume ⟨streamer, .releasing pause⟩ s
  | timeOut pause s => exact .act .timeOut ⟨streamer, .releasing pause⟩ s
  | listen pause s moment => exact .listen ⟨streamer, .releasing pause⟩ s moment

/-- A release that is claimed goes through. -/
theorem completes_release : ReflTransGen (Seat.Step link e) (Seat.release e streamer s)
    (⟨streamer, .idle⟩, (exec (releaseStream link e streamer.stream streamer.reference) s).2) := by
  rw [Seat.release, releaseStream, exec_bind, exec_get]
  dsimp only
  by_cases hopen : (!s.isExecutionClosed e && !s.isClosed) = true
  · rw [if_pos hopen, if_pos hopen, sendRelease]
    simp only [exec_bind, exec_get]
    cases hready : exec (ready .dqp "closeLobChunkStream"
      (streamArgs e streamer.stream streamer.reference s)) s with
    | mk outcome t =>
      cases outcome with
      | ok =>
        have hcall := (completes_call link hready).lift
          (p := Seat.Step link e)
          (fun q => (⟨streamer, q.1.elim .idle .releasing⟩, q.2)) fun _ _ h => h.seat
        generalize exec (call link .dqp "closeLobChunkStream"
          (streamArgs e streamer.stream streamer.reference s)) s = called at hcall ⊢
        obtain ⟨outcome, u⟩ := called
        cases outcome <;> exact hcall
      | error fault => rw [exec_call, hready]
  · rw [if_neg hopen, if_neg hopen]
    exact .refl

/-- A streamer with its task idle, over what a desk has become. -/
def Seat.idle (d : Desk (Session σ) Handle) : Seat × Session σ :=
  (⟨d.streamer, .idle⟩, d.source)

theorem completes_claim {streamer : Streamer Handle} {s : Session σ} :
    ReflTransGen (Seat.Step link e) (Seat.claim e streamer s)
      (Seat.idle (Attempt.exec (releaseExhausted (chunkSource link e)) ⟨streamer, s⟩).2) := by
  rw [Seat.claim, releaseExhausted, claimRelease]
  simp only [Attempt.exec_bind, exec_marks, exec_mark, Attempt.exec_pure]
  change ReflTransGen _ _ (Seat.idle (Attempt.exec (if !(s.marks e streamer.stream).released then _
    else _) _).2)
  cases (s.marks e streamer.stream).released with
  | true => exact .refl
  | false => exact completes_release

theorem completes_awaitChunk {handle : Handle} (hflight : streamer.flight = some handle)
    (hopen : handle.finished = false) :
    ReflTransGen (Seat.Step link e) (⟨streamer, .expecting⟩, s)
      (Seat.idle (Attempt.exec (awaitChunk (chunkSource link e)) ⟨streamer, s⟩).2) := by
  have hawaited := awaited_wait (P := fun t => ReflTransGen (Seat.Step link e)
      (⟨streamer, .expecting⟩, s) (⟨streamer, .expecting⟩, t))
    (fun t ht moment => ht.tail (.listen _ t moment)) streamer.timeout hopen .refl
  have hwaited : ∀ {outcome : Except Fault Value} {next : Handle} {t : Session σ},
      s.wait link streamer.timeout handle = (outcome, next, t) →
      (chunkSource link e).wait streamer.timeout handle s = (outcome >>= Value.chunk, next, t) := by
    intro outcome next t hwait
    change waitAs link Value.chunk streamer.timeout handle s = _
    rw [waitAs, hwait]
  generalize hwait : s.wait link streamer.timeout handle = waited at hawaited
  cases hawaited with
  | @timedOut t hkept =>
    have hsame : { streamer with flight := some handle } = streamer := by rw [← hflight]
    rw [exec_awaitChunk_of_some (d := ⟨streamer, s⟩) hflight (hwaited hwait)]
    dsimp only [bind, Except.bind]
    rw [hsame]
    exact hkept.tail (.act .timeOut _ t)
  | @answered t outcome hkept houtcome =>
    have htake := @Seat.Step.act _ link e .resume ⟨streamer, .expecting⟩ t
    have hsource := hwaited hwait
    rw [Seat.act, Seat.takeChunk, hflight] at htake
    dsimp only at htake
    rw [houtcome] at htake
    dsimp only at htake
    generalize conclude outcome >>= Value.chunk = result at hsource htake
    rw [exec_awaitChunk_of_some (d := ⟨streamer, s⟩) hflight hsource]
    cases result with
    | error fault => exact hkept.tail htake
    | ok chunk =>
      dsimp only at htake ⊢
      cases hlast : chunk.isLast with
      | false =>
        rw [hlast] at htake
        exact hkept.tail htake
      | true =>
        rw [hlast] at htake
        exact (hkept.tail htake).trans completes_claim

/-- To ask for a chunk is to make a call ready and to send it, unless the execution is closed. -/
theorem exec_requestChunk {stream : UInt64} {reference : LobReference} :
    exec (Session.requestChunk link e stream reference) s =
      if s.isExecutionClosed e then (.error .cursorClosed, s)
      else
        match exec (ready .dqp "requestNextLobChunk" (streamArgs e stream reference s)) s with
        | (.error fault, t) => (.error fault, t)
        | (.ok call, t) =>
          match exec (post link call) t with
          | (.error fault, u) => (.error fault, u)
          | (.ok (), u) => (.ok call.handle, u) := by
  rw [Session.requestChunk, ensureExecutionOpen]
  by_cases hclosed : s.isExecutionClosed e = true
  · simp [exec_bind, hclosed]
  · simp only [exec_bind, exec_get, hclosed, exec_invoke, Bool.false_eq_true, if_false, exec_pure]
    rcases exec (ready .dqp "requestNextLobChunk" (streamArgs e stream reference s)) s with
      ⟨_ | call, t⟩
    · rfl
    · dsimp only
      rcases exec (post link call) t with ⟨_ | _, u⟩ <;> rfl

/-- A streamer with no chunk under way asks the execution for one. -/
theorem exec_requestChunk_of_none (hflight : streamer.flight = none) :
    Attempt.exec (Streamer.requestChunk (chunkSource link e)) ⟨streamer, s⟩ =
      match exec (Session.requestChunk link e streamer.stream streamer.reference) s with
      | (.error fault, t) => (.error (.fault fault), ⟨streamer, t⟩)
      | (.ok handle, t) => (.ok (), ⟨{ streamer with flight := some handle }, t⟩) := by
  have hsource : (chunkSource link e).request streamer.stream streamer.reference s =
      exec (Session.requestChunk link e streamer.stream streamer.reference) s := rfl
  simp only [Streamer.requestChunk, Attempt.exec_bind, exec_streamer, hflight,
    Option.isNone_none, if_true, exec_ask, hsource]
  rcases exec (Session.requestChunk link e streamer.stream streamer.reference) s with
    ⟨_ | _, t⟩ <;> rfl

/-- A chunk is asked for, if none is under way, and waited for. -/
theorem completes_chunk (hopen : (s.marks e streamer.stream).closed = false)
    (hbuffer : streamer.buffer = []) (hseen : streamer.lastSeen = false) :
    ReflTransGen (Seat.Step link e) (⟨streamer, .idle⟩, s)
      (Seat.idle (Attempt.exec (do
        Streamer.requestChunk (chunkSource link e)
        awaitChunk (chunkSource link e)) ⟨streamer, s⟩).2) := by
  have hread := @Seat.Step.act _ link e .read ⟨streamer, .idle⟩ s
  rw [Seat.act, Seat.beginRead, if_neg (by simp [hopen, hbuffer, hseen])] at hread
  cases hflight : streamer.flight with
  | some handle =>
    have hrequest : Attempt.exec (Streamer.requestChunk (chunkSource link e)) ⟨streamer, s⟩ =
        (.ok (), ⟨streamer, s⟩) := by
      simp [Streamer.requestChunk, Attempt.exec_bind, hflight]
    rw [Attempt.exec_bind_ok hrequest]
    rw [hflight] at hread
    cases hfinished : handle.finished with
    | false =>
      simp only [hfinished] at hread
      exact .head hread (completes_awaitChunk hflight hfinished)
    | true =>
      have hwait : (chunkSource link e).wait streamer.timeout handle s =
          (.error (.protocol (.replyConsumed handle.method)), handle, s) := by
        change waitAs link Value.chunk streamer.timeout handle s = _
        rw [waitAs, wait, if_pos hfinished]
        rfl
      rw [exec_awaitChunk_of_some (d := ⟨streamer, s⟩) hflight hwait]
      have hsame : { streamer with flight := some handle } = streamer := by rw [← hflight]
      dsimp only
      rw [hsame]
      exact .refl
  | none =>
    rw [hflight] at hread
    dsimp only at hread
    rw [Attempt.exec_bind, exec_requestChunk_of_none hflight, exec_requestChunk]
    by_cases hclosed : s.isExecutionClosed e = true
    · rw [if_pos hclosed]
      exact .refl
    · rw [if_neg hclosed] at hread ⊢
      generalize exec (ready .dqp "requestNextLobChunk"
        (streamArgs e streamer.stream streamer.reference s)) s = readied at hread ⊢
      obtain ⟨outcome, t⟩ := readied
      cases outcome with
      | error fault => exact .single hread
      | ok call =>
        have hresume := @Seat.Step.act _ link e .resume ⟨streamer, .asking call⟩ t
        rw [Seat.act] at hresume
        dsimp only at hread ⊢
        generalize exec (post link call) t = posted at hresume ⊢
        obtain ⟨outcome, u⟩ := posted
        cases outcome with
        | error fault => exact .head hread (.single hresume)
        | ok => exact .head hread (.head hresume (completes_awaitChunk rfl rfl))

section Reading

variable {start : Seat × Session σ}

theorem completes_fill (rounds : Nat) :
    Preserves (fun d => ReflTransGen (Seat.Step link e) start (Seat.idle d))
      (fill (chunkSource link e) rounds) := by
  induction rounds with
  | zero => exact .throw _
  | succ rounds ih =>
    intro d hd
    cases hopen : (d.source.marks e d.streamer.stream).closed with
    | true =>
      rw [fill, Attempt.exec_bind_error (exec_ensureOpen_of_closed hopen)]
      exact hd
    | false =>
      rw [exec_fill hopen]
      split
      · exact hd
      · split
        · exact hd
        · rename_i hbuffer hseen
          have hchunk := hd.trans (completes_chunk hopen (not_not.1 hbuffer)
            (Bool.eq_false_of_not_eq_true hseen))
          rw [← bind_assoc]
          rcases hexec : Attempt.exec (do
            Streamer.requestChunk (chunkSource link e)
            awaitChunk (chunkSource link e)) d with ⟨_ | _, taken⟩
          · rw [Attempt.exec_bind_error hexec]
            rwa [hexec] at hchunk
          · rw [Attempt.exec_bind_ok hexec]
            rw [hexec] at hchunk
            exact ih taken hchunk

/-- **A read goes through in turns**: one to begin with each chunk, those of the chunk, and one to
deliver what has come in. -/
theorem completes_retrieve (call : Retrieval) (rounds : Nat) (streamer : Streamer Handle)
    (s : Session σ) : ReflTransGen (Seat.Step link e) (⟨streamer, .idle⟩, s)
      (Seat.idle (Attempt.exec (call.perform (chunkSource link e) rounds) ⟨streamer, s⟩).2) :=
  Preserves.retrieve (completes_fill rounds)
    (fun n d hd => hd.tail (.act (.deliver n) ⟨d.streamer, .idle⟩ d.source))
    call ⟨streamer, s⟩ .refl

theorem exec_claimRelease (d : Desk (Session σ) Handle) :
    Attempt.exec (claimRelease (chunkSource link e)) d =
      (.ok (!(d.source.marks e d.streamer.stream).released), { d with
        source := d.source.setMarks e d.streamer.stream
          { d.source.marks e d.streamer.stream with released := true } }) :=
  rfl

/-- Whether the fault of a release is passed on makes no difference to what is done. -/
theorem desk_released (d : Desk (Session σ) Handle) :
    (Attempt.exec (do
      if ← claimRelease (chunkSource link e) then
        match ← ask ((chunkSource link e).release d.streamer.stream d.streamer.reference) with
        | .error fault => Attempt.fail fault
        | .ok () => return) d).2 =
      (Attempt.exec (releaseExhausted (chunkSource link e)) d).2 := by
  rw [releaseExhausted, Attempt.exec_bind, Attempt.exec_bind, exec_claimRelease]
  dsimp only
  cases (d.source.marks e d.streamer.stream).released with
  | true => rfl
  | false =>
    simp only [Bool.not_false, if_true, Attempt.exec_bind, exec_ask, exec_streamer]
    generalize (chunkSource link e).release d.streamer.stream d.streamer.reference _ = released
    obtain ⟨outcome, t⟩ := released
    cases outcome <;> rfl

/-- To close a streamer is to mark its stream, to give up what is under way, and to claim the
release as if the stream had come to its end. -/
theorem desk_close (hopen : (s.marks e streamer.stream).closed = false) :
    (Attempt.exec (Streamer.close (chunkSource link e)) ⟨streamer, s⟩).2 =
      (Attempt.exec (releaseExhausted (chunkSource link e))
        ⟨{ streamer with flight := none, buffer := [] }, Seat.abandonFlight streamer
          (s.setMarks e streamer.stream { s.marks e streamer.stream with closed := true })⟩).2 := by
  have hmarks : ((chunkSource link e).marks streamer.stream s).closed = false := hopen
  rw [← desk_released]
  simp only [Streamer.close, Attempt.exec_bind, exec_marks, hmarks, Bool.not_false, if_true,
    exec_mark, exec_streamer, exec_update]
  cases hflight : streamer.flight with
  | none =>
    simp only [Seat.abandonFlight, hflight]
    rfl
  | some handle =>
    simp only [Seat.abandonFlight, hflight]
    rfl

/-- **The close of a streamer goes through in turns.** -/
theorem completes_close (streamer : Streamer Handle) (s : Session σ) :
    ReflTransGen (Seat.Step link e) (⟨streamer, .idle⟩, s)
      (Seat.idle (Attempt.exec (Streamer.close (chunkSource link e)) ⟨streamer, s⟩).2) := by
  cases hclosed : (s.marks e streamer.stream).closed with
  | true =>
    have hmarks : ((chunkSource link e).marks streamer.stream s).closed = true := hclosed
    have hsame : Attempt.exec (Streamer.close (chunkSource link e)) ⟨streamer, s⟩ =
        (.ok (), ⟨streamer, s⟩) := by
      simp [Streamer.close, Attempt.exec_bind, hmarks]
    rw [hsame]
    exact .refl
  | false =>
    have hbegin := @Seat.Step.act _ link e .close ⟨streamer, .idle⟩ s
    rw [Seat.act, Seat.beginClose, hclosed] at hbegin
    rw [desk_close hclosed]
    exact .head hbegin completes_claim

end Reading

end Streamers

/-! ## The execution -/

/-- What may come next for the task that closes an execution. -/
inductive Closing.Step (link : Link σ) (e : Nat) : Closing × Session σ → Closing × Session σ → Prop
  | resume (closing : Closing) (s : Session σ) :
    Step link e (closing, s) (closing.proceed e (Pause.resume link) s)
  | timeOut (closing : Closing) (s : Session σ) :
    Step link e (closing, s) (closing.proceed e Pause.timeOut s)
  | listen (closing : Closing) (s : Session σ) (moment : Instant) :
    Step link e (closing, s) (closing, Session.listen link moment s)

section Execution

variable {link : Link σ} {e : Nat} {id : Int64} {s t : Session σ}

/-- Where the close is while it releases a stream, and behind it. -/
def Closing.behind (e : Nat) (id : Int64) (rest : List LobStream) :
    Option Pause × Session σ → Closing × Session σ
  | (some pause, s) => (.releasing id pause rest, s)
  | (none, s) => advance e id rest s

theorem Pause.Step.releasing {rest : List LobStream} {p q : Option Pause × Session σ}
    (h : Pause.Step link p q) :
    Closing.Step link e (Closing.behind e id rest p) (Closing.behind e id rest q) := by
  have hbehind : ∀ step : Pause → Session σ → Option Pause × Session σ, ∀ pause s,
      Closing.proceed e step (.releasing id pause rest) s =
        Closing.behind e id rest (step pause s) := by
    intro step pause s
    rw [Closing.proceed]
    rcases step pause s with ⟨_ | _, t⟩ <;> rfl
  cases h with
  | resume pause s =>
    exact hbehind (Pause.resume link) pause s ▸ .resume (.releasing id pause rest) s
  | timeOut pause s => exact hbehind Pause.timeOut pause s ▸ .timeOut (.releasing id pause rest) s
  | listen pause s moment => exact .listen (.releasing id pause rest) s moment

theorem Pause.Step.ending {p q : Option Pause × Session σ} (h : Pause.Step link p q) :
    Closing.Step link e (p.1.elim .done .ending, p.2) (q.1.elim .done .ending, q.2) := by
  cases h with
  | resume pause s => exact .resume (.ending pause) s
  | timeOut pause s => exact .timeOut (.ending pause) s
  | listen pause s moment => exact .listen (.ending pause) s moment

/-- The end of an execution, behind some streams. -/
def endAfter (link : Link σ) (e : Nat) (id : Int64) (streams : List LobStream) : Op σ Unit := do
  closeStreams link e streams
  let _ ← call link .dqp "closeRequest" [.long id]

theorem exec_endAfter_cons (opened : LobStream) (rest : List LobStream) :
    exec (endAfter link e id (opened :: rest)) s =
      let claimed := s.setMarks e opened.id ⟨true, true⟩
      exec (endAfter link e id rest)
        (if (s.marks e opened.id).released then claimed
          else (exec (call link .dqp "closeLobChunkStream"
            (streamArgs e opened.id opened.reference claimed)) claimed).2) := by
  have hclaim : exec (claimClosed e opened.id) s =
      (.ok (!(s.marks e opened.id).released), s.setMarks e opened.id ⟨true, true⟩) := rfl
  rw [endAfter, endAfter, closeStreams, exec_bind, exec_bind, exec_bind, hclaim]
  dsimp only
  cases (s.marks e opened.id).released with
  | true => rfl
  | false =>
    simp only [Bool.not_false, if_true, exec_bind, exec_tryCatch, sendRelease, exec_get]
    generalize exec (call link .dqp "closeLobChunkStream" _) _ = called
    obtain ⟨outcome, t⟩ := called
    cases outcome <;> rfl

/-- The close goes through the streams and ends the execution. -/
theorem completes_advance (streams : List LobStream) (s : Session σ) :
    ReflTransGen (Closing.Step link e) (Closing.advance e id streams s)
      (.done, (exec (endAfter link e id streams) s).2) := by
  induction streams generalizing s with
  | nil =>
    have hend : (exec (endAfter link e id []) s).2 =
        (exec (call link .dqp "closeRequest" [.long id]) s).2 := by
      rw [endAfter, closeStreams, exec_bind, exec_pure]
      simp only [exec_bind]
      rcases exec (call link .dqp "closeRequest" [.long id]) s with ⟨_ | _, t⟩ <;> rfl
    rw [Closing.advance, hend]
    cases hready : exec (ready .dqp "closeRequest" [.long id]) s with
    | mk outcome t =>
      cases outcome with
      | ok call =>
        exact (completes_call link hready).lift
          (p := Closing.Step link e)
          (fun q => (q.1.elim .done .ending, q.2)) fun _ _ h => h.ending
      | error fault => rw [exec_call, hready]
  | cons opened rest ih =>
    rw [Closing.advance, exec_endAfter_cons]
    dsimp only
    cases (s.marks e opened.id).released with
    | true => exact ih _
    | false =>
      rw [if_neg (by simp), if_neg (by simp)]
      generalize s.setMarks e opened.id ⟨true, true⟩ = claimed
      cases hready : exec (ready .dqp "closeLobChunkStream"
        (streamArgs e opened.id opened.reference claimed)) claimed with
      | mk outcome t =>
        cases outcome with
        | ok call =>
          exact ((completes_call link hready).lift (p := Closing.Step link e)
            (Closing.behind e id rest) fun _ _ h => h.releasing).trans (ih _)
        | error fault =>
          rw [exec_call, hready]
          exact ih t

theorem exec_closeExecution_of_open {execution : Execution}
    (hexecution : s.executions[e]? = some execution) (hopen : execution.closed = false) :
    exec (closeExecution link e) s =
      if s.isClosed then (.ok (), abandonStreams e execution.unreleased (s.withClosed e))
      else exec (endAfter link e execution.id execution.unreleased) (s.withClosed e) := by
  rw [closeExecution, exec_bind, exec_get]
  simp only [hexecution, hopen, Bool.not_false, if_true, exec_bind, exec_set]
  cases s.isClosed <;> rfl

/-- The close begins with the streams that are open. -/
theorem start_unreleased {execution : Execution} (hexecution : s.executions[e]? = some execution)
    (hopen : execution.closed = false) : Closing.start e execution.unreleased .notBegun s =
      if s.isClosed then (.done, abandonStreams e execution.unreleased (s.withClosed e))
      else Closing.advance e execution.id execution.unreleased (s.withClosed e) := by
  rw [Closing.start, hexecution]
  dsimp only
  rw [if_neg (by simp [hopen, List.isPerm_iff])]
  rfl

/-- **The close of an execution goes through in turns.** -/
theorem completes_closeExecution {execution : Execution}
    (hexecution : s.executions[e]? = some execution) (hopen : execution.closed = false) :
    ReflTransGen (Closing.Step link e) (Closing.start e execution.unreleased .notBegun s)
      (.done, (exec (closeExecution link e) s).2) := by
  rw [exec_closeExecution_of_open hexecution hopen, start_unreleased hexecution hopen]
  cases s.isClosed with
  | true => exact .refl
  | false => exact completes_advance execution.unreleased (s.withClosed e)

/-- An execution that is closed stays as it is. -/
theorem exec_closeExecution_of_closed (hclosed : s.isExecutionClosed e = true) :
    exec (closeExecution link e) s = (.ok (), s) := by
  rw [isExecutionClosed] at hclosed
  rw [closeExecution, exec_bind, exec_get]
  cases hexecution : s.executions[e]? with
  | none => simp [hexecution]
  | some execution =>
    rw [hexecution] at hclosed
    have hclosed' : execution.closed = true := hclosed
    simp [hexecution, hclosed']

end Execution

end QueryClient.Session
