import QueryClient.Proofs.Session.Seats
import QueryClient.Proofs.Session.Solo

/-!
# What marks a stream as closed

Calls come and go without a trace in the executions: a stream is closed by its own streamer, in the
one turn that closes it, or by the close of its execution as it comes to the stream. Whatever else
the tasks do leaves a stream open that is open, and nothing opens one that is closed.
-/

namespace QueryClient.Session

/-! ## What a turn does to the streams -/

section Executions

variable {σ : Type} {link : Link σ} {e : Nat} {stream other : UInt64} {m : Lob.Marks}
  {s t : Session σ}

@[simp] theorem executions_abandon (handle : Handle) :
    (s.abandon handle).executions = s.executions := by
  unfold abandon
  split <;> rfl

theorem executions_ready (service : Service) (method : String) (args : List Value)
    (s : Session σ) : (exec (ready service method args) s).2.executions = s.executions := by
  rw [exec_ready]
  cases s.calls.register (s.lastKey + 1) with
  | error fault => rfl
  | ok calls =>
    dsimp only
    split
    · rfl
    · exact executions_abandon _

theorem executions_post (link : Link σ) (call : Invocation) (s : Session σ) :
    (exec (post link call) s).2.executions = s.executions := by
  cases hencode : Frame.encode s.settings.encoding (.invocation call) with
  | ok frame =>
    rw [exec_post hencode]
    split
    · rfl
    · exact executions_abandon _
  | error fault => simp [post, exec_tryCatch, send, exec_bind, hencode]

theorem executions_listen (moment : Instant) :
    (listen link moment s).executions = s.executions := by
  obtain ⟨_, _, _, hlisten⟩ := exists_listen link moment s
  rw [hlisten]

theorem executions_resume (pause : Pause) :
    (pause.resume link s).2.executions = s.executions := by
  cases pause with
  | sending call =>
    have hpost := executions_post link call s
    rw [Pause.resume]
    generalize exec (post link call) s = posted at hpost ⊢
    obtain ⟨_ | _, t⟩ := posted <;> exact hpost
  | waiting handle =>
    rw [Pause.resume]
    cases s.calls.outcome? handle.key <;> rfl

theorem executions_timeOut (pause : Pause) : (pause.timeOut s).2.executions = s.executions := by
  cases pause with
  | sending call => rfl
  | waiting handle => exact executions_abandon handle

theorem executions_setMarks_congr (h : t.executions = s.executions) :
    (t.setMarks e stream m).executions = (s.setMarks e stream m).executions :=
  congrArg (List.modify · e _) h

theorem closed_setMarks_self (h : m.closed = true) :
    ((s.setMarks e stream m).marks e stream).closed = true := by
  by_cases hknows : s.Knows e stream
  · rw [marks_setMarks_self hknows, h]
  · have hunknown : ¬ (s.setMarks e stream m).Knows e stream := by
      rwa [Knows, names_setMarks]
    rw [marks_of_not_knows hunknown]

end Executions

/-! ## The turn of a streamer -/

/-- What a turn of the streamer of one stream may do to the executions: nothing, or it marks the
stream, as closed only if the turn is `closing`. A mark is not taken back. -/
def Touches (e : Nat) (stream : UInt64) (closing : Prop) {σ : Type} (s t : Session σ) : Prop :=
  t.executions = s.executions ∨ ∃ m : Lob.Marks,
    t.executions = (s.setMarks e stream m).executions ∧
      ((s.marks e stream).closed = true → m.closed = true) ∧
      (¬ closing → m.closed = (s.marks e stream).closed)

namespace Touches

variable {σ : Type} {e : Nat} {stream other : UInt64} {closing : Prop} {s t : Session σ}

theorem isExecutionClosed (h : Touches e stream closing s t) :
    t.isExecutionClosed e = s.isExecutionClosed e := by
  rcases h with hsame | ⟨m, hmarked, -, -⟩
  · exact isExecutionClosed_congr hsame
  · exact (isExecutionClosed_congr hmarked).trans isExecutionClosed_setMarks

theorem marks_of_ne (h : Touches e stream closing s t) (hother : other ≠ stream) :
    t.marks e other = s.marks e other := by
  rcases h with hsame | ⟨m, hmarked, -, -⟩
  · exact marks_congr hsame other
  · exact (marks_congr hmarked other).trans (marks_setMarks_of_ne hother)

theorem closed (h : Touches e stream closing s t) (hother : (s.marks e other).closed = true) :
    (t.marks e other).closed = true := by
  by_cases hstream : other = stream
  · subst hstream
    rcases h with hsame | ⟨m, hmarked, hkept, -⟩
    · rwa [marks_congr hsame]
    · rw [marks_congr hmarked]
      exact closed_setMarks_self (hkept hother)
  · rwa [h.marks_of_ne hstream]

theorem opened (h : Touches e stream closing s t) (hclosing : ¬ closing)
    (hother : (s.marks e other).closed = false) : (t.marks e other).closed = false := by
  by_cases hstream : other = stream
  · subst hstream
    rcases h with hsame | ⟨m, hmarked, -, hkept⟩
    · rwa [marks_congr hsame]
    · have hknows : s.Knows e other := by
        by_contra hunknown
        rw [marks_of_not_knows hunknown] at hother
        cases hother
      rw [marks_congr hmarked, marks_setMarks_self hknows, hkept hclosing, hother]
  · rwa [h.marks_of_ne hstream]

end Touches

section Turns

variable {σ : Type} {link : Link σ} {e : Nat} {streamer : Streamer Handle}
  {s t : Session (σ × List Bytes)}

theorem executions_release : (Seat.release e streamer s).2.executions = s.executions := by
  unfold Seat.release
  split
  · have hready := executions_ready .dqp "closeLobChunkStream"
      (streamArgs e streamer.stream streamer.reference s) s
    generalize exec (ready .dqp "closeLobChunkStream"
      (streamArgs e streamer.stream streamer.reference s)) s = readied at hready ⊢
    obtain ⟨_ | _, t⟩ := readied <;> exact hready
  · rfl

theorem executions_claim : (Seat.claim e streamer s).2.executions =
    (s.setMarks e streamer.stream
      { s.marks e streamer.stream with released := true }).executions := by
  unfold Seat.claim
  dsimp only
  split
  · rfl
  · exact executions_release

theorem executions_abandonFlight (streamer : Streamer Handle) (s : Session σ) :
    (Seat.abandonFlight streamer s).executions = s.executions := by
  unfold Seat.abandonFlight
  cases streamer.flight with
  | none => rfl
  | some handle => exact executions_abandon handle

theorem executions_beginRead : (Seat.beginRead e streamer s).2.executions = s.executions := by
  unfold Seat.beginRead
  split
  · rfl
  · cases streamer.flight with
    | some handle => rfl
    | none =>
      dsimp only
      split
      · rfl
      · have hready := executions_ready .dqp "requestNextLobChunk"
          (streamArgs e streamer.stream streamer.reference s) s
        generalize exec (ready .dqp "requestNextLobChunk"
          (streamArgs e streamer.stream streamer.reference s)) s = readied at hready ⊢
        obtain ⟨_ | _, t⟩ := readied <;> exact hready

/-- To claim the release of a stream is no way to close it. -/
theorem touches_claim {closing : Prop} (streamer : Streamer Handle)
    (h : t.executions = s.executions) :
    Touches e streamer.stream closing s (Seat.claim e streamer t).2 := by
  refine .inr ⟨{ s.marks e streamer.stream with released := true }, ?_, id, fun _ => rfl⟩
  rw [executions_claim, marks_congr h]
  exact executions_setMarks_congr h

theorem touches_takeChunk {closing : Prop} :
    Touches e streamer.stream closing s (Seat.takeChunk e streamer s).2 := by
  unfold Seat.takeChunk
  cases streamer.flight with
  | none => exact .inl rfl
  | some handle =>
    dsimp only
    cases s.calls.outcome? handle.key with
    | none => exact .inl rfl
    | some outcome =>
      dsimp only
      cases conclude outcome >>= Value.chunk with
      | error fault => exact .inl rfl
      | ok chunk =>
        dsimp only
        split
        · exact touches_claim
            { streamer with flight := none, buffer := chunk.data, lastSeen := true } rfl
        · exact .inl rfl

theorem touches_beginClose {closing : Prop} (hclosing : closing) :
    Touches e streamer.stream closing s (Seat.beginClose e streamer s).2 := by
  unfold Seat.beginClose
  dsimp only
  split
  · exact .inl rfl
  · generalize hm : ({ s.marks e streamer.stream with closed := true } : Lob.Marks) = m
    have hflight := executions_abandonFlight streamer (s.setMarks e streamer.stream m)
    generalize Seat.abandonFlight streamer (s.setMarks e streamer.stream m) = marked at hflight ⊢
    have hclosed : (marked.marks e streamer.stream).closed = true := by
      rw [marks_congr hflight]
      exact closed_setMarks_self (by rw [← hm])
    refine .inr ⟨{ marked.marks e streamer.stream with released := true }, ?_, fun _ => hclosed,
      fun hnot => absurd hclosing hnot⟩
    rw [executions_claim, executions_setMarks_congr hflight, setMarks_setMarks]

/-- **A turn closes a stream only if it closes its streamer**, and touches no other stream. -/
theorem touches_act (link : Link σ) (e : Nat) (s : Session (σ × List Bytes)) (move : Seat.Move)
    (seat : Seat) :
    Touches e seat.streamer.stream (move = .close) s (seat.act link.watched e move s).2 := by
  obtain ⟨streamer, stage⟩ := seat
  cases stage with
  | idle =>
    cases move with
    | read => exact .inl executions_beginRead
    | close => exact touches_beginClose rfl
    | drop => exact .inl (executions_abandonFlight streamer s)
    | _ => exact .inl rfl
  | asking call =>
    cases move with
    | resume =>
      have hpost := executions_post link.watched call s
      rw [Seat.act]
      generalize exec (post link.watched call) s = posted at hpost ⊢
      obtain ⟨_ | _, t⟩ := posted <;> exact .inl hpost
    | _ => exact .inl rfl
  | expecting =>
    cases move with
    | resume => exact touches_takeChunk
    | _ => exact .inl rfl
  | releasing pause =>
    cases move with
    | resume => exact .inl (executions_resume pause)
    | timeOut => exact .inl (executions_timeOut pause)
    | _ => exact .inl rfl
  | gone => cases move <;> exact .inl rfl

/-- A last chunk stays the last. -/
theorem lastSeen_act {seat : Seat} (h : seat.streamer.lastSeen = true) (move : Seat.Move) :
    (seat.act link.watched e move s).1.streamer.lastSeen = true := by
  obtain ⟨streamer, stage⟩ := seat
  cases stage with
  | idle =>
    cases move with
    | read =>
      have hread : Seat.beginRead e streamer s = (⟨streamer, .idle⟩, s) := by
        rw [Seat.beginRead, if_pos (by simp [show streamer.lastSeen = true from h])]
      rw [Seat.act, hread]
      exact h
    | close =>
      rw [Seat.act, Seat.beginClose]
      split
      · exact h
      · rw [streamer_claim]
        exact h
    | _ => exact h
  | asking call =>
    cases move with
    | resume =>
      rw [Seat.act]
      split <;> exact h
    | _ => exact h
  | expecting =>
    cases move with
    | resume =>
      rw [Seat.act, Seat.takeChunk]
      split
      · exact h
      · split
        · exact h
        · dsimp only
          split
          · exact h
          · split
            · rw [streamer_claim]
            · exact h
    | _ => exact h
  | releasing pause => cases move <;> exact h
  | gone => cases move <;> exact h

end Turns

/-! ## The turn of the close -/

/-- What the close makes of the streams that it goes through: each of them is closed or has still to
come, and it touches no other. -/
structure Closing.Swept {σ : Type} (e : Nat) (streams : List LobStream) (s : Session σ)
    (next : Closing) (t : Session σ) : Prop where
  executionClosed : t.isExecutionClosed e = s.isExecutionClosed e
  rest : next.rest ⊆ streams
  passed : ∀ opened ∈ streams, (t.marks e opened.id).closed = true ∨ opened ∈ next.rest
  others : ∀ stream, (∀ opened ∈ streams, opened.id ≠ stream) → t.marks e stream = s.marks e stream
  closed : ∀ stream, (s.marks e stream).closed = true → (t.marks e stream).closed = true

section Sweeping

variable {σ : Type} {link : Link σ} {e : Nat} {streams : List LobStream} {next : Closing}
  {s t u : Session σ}

theorem swept_of_executions (hrest : next.rest = streams) (h : t.executions = s.executions) :
    next.Swept e streams s t where
  executionClosed := isExecutionClosed_congr h
  rest := hrest ▸ List.Subset.refl _
  passed opened hopened := .inr (hrest ▸ hopened)
  others stream _ := marks_congr h stream
  closed stream hclosed := by rwa [marks_congr h]

theorem Closing.Swept.of_executions (h : next.Swept e streams t u)
    (hsame : t.executions = s.executions) : next.Swept e streams s u where
  executionClosed := h.executionClosed.trans (isExecutionClosed_congr hsame)
  rest := h.rest
  passed := h.passed
  others stream hstream := (h.others stream hstream).trans (marks_congr hsame stream)
  closed stream hclosed := h.closed stream (by rwa [marks_congr hsame])

/-- The close passes a stream that it marks as closed. -/
theorem Closing.Swept.cons {opened : LobStream} {m : Lob.Marks} (hm : m.closed = true)
    (h : next.Swept e streams (s.setMarks e opened.id m) t) :
    next.Swept e (opened :: streams) s t where
  executionClosed := h.executionClosed.trans isExecutionClosed_setMarks
  rest := List.subset_cons_of_subset opened h.rest
  passed other hother := by
    rcases List.mem_cons.1 hother with rfl | hother
    · exact .inl (h.closed other.id (closed_setMarks_self hm))
    · exact h.passed other hother
  others stream hstream := by
    have hne := hstream opened List.mem_cons_self
    refine (h.others stream fun other hother => ?_).trans (marks_setMarks_of_ne (Ne.symm hne))
    exact hstream other (List.mem_cons_of_mem _ hother)
  closed stream hclosed := by
    refine h.closed stream ?_
    by_cases hstream : stream = opened.id
    · rw [hstream]
      exact closed_setMarks_self hm
    · rwa [marks_setMarks_of_ne hstream]

theorem swept_advance (id : Int64) (streams : List LobStream) (s : Session σ) :
    (Closing.advance e id streams s).1.Swept e streams s (Closing.advance e id streams s).2 := by
  induction streams generalizing s with
  | nil =>
    have hready := executions_ready .dqp "closeRequest" [.long id] s
    rw [Closing.advance]
    generalize exec (ready .dqp "closeRequest" [.long id]) s = readied at hready ⊢
    obtain ⟨_ | _, t⟩ := readied <;> exact swept_of_executions rfl hready
  | cons opened rest ih =>
    rw [Closing.advance]
    split
    · exact (ih _).cons rfl
    · have hready := executions_ready .dqp "closeLobChunkStream"
        (streamArgs e opened.id opened.reference (s.setMarks e opened.id ⟨true, true⟩))
        (s.setMarks e opened.id ⟨true, true⟩)
      generalize exec (ready .dqp "closeLobChunkStream" (streamArgs e opened.id opened.reference
        (s.setMarks e opened.id ⟨true, true⟩))) (s.setMarks e opened.id ⟨true, true⟩) = readied
        at hready ⊢
      obtain ⟨_ | call, t⟩ := readied
      · exact ((ih t).of_executions hready).cons rfl
      · have hpaused : (Closing.releasing id (.sending call) rest).Swept e rest
            (s.setMarks e opened.id ⟨true, true⟩) t := swept_of_executions rfl hready
        exact hpaused.cons rfl

theorem swept_abandonStreams (streams : List LobStream) (s : Session σ) :
    Closing.done.Swept e streams s (abandonStreams e streams s) := by
  induction streams generalizing s with
  | nil => exact swept_of_executions rfl rfl
  | cons opened rest ih => exact (ih _).cons rfl

/-- The close begins by closing the execution, and goes through the streams that are open. -/
theorem swept_start {execution : Execution} {order : List LobStream} {closing : Closing}
    (h : closing.start e order s =
      if s.isClosed then (.done, abandonStreams e order (s.withClosed e))
      else Closing.advance e execution.id order (s.withClosed e)) :
    (closing.start e order s).1.Swept e order (s.withClosed e) (closing.start e order s).2 := by
  rw [h]
  split
  · exact swept_abandonStreams order _
  · exact swept_advance execution.id order _

/-- The close goes on with the streams that have still to come. -/
theorem swept_proceed {step : Pause → Session σ → Option Pause × Session σ} (closing : Closing)
    (hstep : ∀ pause, (step pause s).2.executions = s.executions) :
    (closing.proceed e step s).1.Swept e closing.rest s (closing.proceed e step s).2 := by
  cases closing with
  | notBegun => exact swept_of_executions rfl rfl
  | done => exact swept_of_executions rfl rfl
  | ending pause =>
    have hsame := hstep pause
    rw [Closing.proceed]
    generalize step pause s = stepped at hsame ⊢
    obtain ⟨_ | _, t⟩ := stepped <;> exact swept_of_executions rfl hsame
  | releasing id pause rest =>
    have hsame := hstep pause
    rw [Closing.proceed]
    generalize step pause s = stepped at hsame ⊢
    obtain ⟨_ | _, t⟩ := stepped
    · exact (swept_advance id rest t).of_executions hsame
    · exact swept_of_executions rfl hsame

theorem Closing.Step.swept {p q : Closing × Session σ} (h : Closing.Step link e p q) :
    q.1.Swept e p.1.rest p.2 q.2 := by
  cases h with
  | resume closing s => exact swept_proceed closing executions_resume
  | timeOut closing s => exact swept_proceed closing executions_timeOut
  | listen closing s moment => exact swept_of_executions rfl (executions_listen moment)

end Sweeping

end QueryClient.Session
