import QueryClient.Proofs.Session.Marking
import QueryClient.Proofs.Session.Orderly

/-!
# Streamers that outlive their execution

To close an execution is to close the streamers whose release nobody has claimed. That is every
streamer that could still ask for a chunk, whatever it is at: one that has read nothing, or a part,
or that waits for a chunk, is closed by the time the close has returned, and no read goes through
after that. But a streamer claims its release when its last chunk comes in, and there may be bytes
of it left to read. So the close does not find the streamers that hold their last chunk or have come
to the end of it: unless their own close finds them, they stay open and go on to deliver what they
hold.
-/

namespace QueryClient.Streamer

open Attempt Lob

variable {σ H : Type} {source : ChunkSource σ H} {d : Desk σ H}

/-- A streamer that is closed: every read fails, and none changes anything. -/
structure Refuses (source : ChunkSource σ H) (d : Desk σ H) : Prop where
  closed : (source.marks d.streamer.stream d.source).closed = true
  refused : ∀ (call : Retrieval) (rounds : Nat), exec (call.perform source (rounds + 1)) d =
    (.error (.fault (call.refusal d.streamer.reference.kind)), d)

/-- A streamer that is open and lives on what it holds: a read finds the bytes that are left, or the
end of the stream, and asks the source for nothing. -/
structure Serves (source : ChunkSource σ H) (d : Desk σ H) : Prop where
  opened : (source.marks d.streamer.stream d.source).closed = false
  filled : ∀ rounds : Nat, exec (fill source (rounds + 1)) d = (.ok (!d.streamer.buffer.isEmpty), d)
  rest : ∀ rounds : Nat, exec (Retrieval.rest.perform source (rounds + 2)) d =
    (.ok d.streamer.buffer, { d with streamer := { d.streamer with
      buffer := []
      bytesRead := d.streamer.bytesRead + d.streamer.buffer.length } })

theorem refuses_of_closed (h : (source.marks d.streamer.stream d.source).closed = true) :
    Refuses source d :=
  ⟨h, exec_retrieve_of_closed h⟩

theorem exec_fill_of_lastSeen (hopen : (source.marks d.streamer.stream d.source).closed = false)
    (hlast : d.streamer.lastSeen = true) (rounds : Nat) :
    exec (fill source (rounds + 1)) d = (.ok (!d.streamer.buffer.isEmpty), d) := by
  rw [exec_fill hopen]
  cases hbuffer : d.streamer.buffer with
  | nil => simp [hlast]
  | cons byte rest => simp

theorem serves_of_lastSeen (hopen : (source.marks d.streamer.stream d.source).closed = false)
    (hlast : d.streamer.lastSeen = true) : Serves source d := by
  refine ⟨hopen, exec_fill_of_lastSeen hopen hlast, fun rounds => ?_⟩
  have hfill := exec_fill_of_lastSeen hopen hlast (rounds + 1)
  rw [Retrieval.perform, readToEnd, readChunks, exec_bind_ok hfill]
  cases hbuffer : d.streamer.buffer with
  | nil =>
    have hsame : { d.streamer with buffer := [] } = d.streamer := by rw [← hbuffer]
    simp [hsame]
  | cons byte rest =>
    have hend := exec_fill_of_lastSeen (d := { d with streamer := { d.streamer with
      buffer := []
      bytesRead := d.streamer.bytesRead + (byte :: rest).length } }) hopen hlast (rounds + 1)
    simp only [List.isEmpty_cons, Bool.not_false, if_true, exec_bind, exec_streamer, exec_deliver,
      hbuffer, List.take_length, List.drop_length, readChunks, hend]
    simp

end QueryClient.Streamer

namespace QueryClient.Session

open Relation (ReflTransGen)

/-! ## Once the close has begun -/

section Begun

variable {σ : Type} {link : Link σ} {e i : Nat} {stream : UInt64}
  {scene next : Scene (σ × List Bytes)}

/-- A stream that is closed, or that the close will come to. -/
def Scene.Doomed (e : Nat) (stream : UInt64) (scene : Scene σ) : Prop :=
  (scene.session.marks e stream).closed = true ∨
    ∃ opened ∈ scene.closing.rest, opened.id = stream

/-- A stream that has come to its last chunk, and that the close will not come to. -/
structure Scene.Spared (e i : Nat) (stream : UInt64) (scene : Scene σ) : Prop where
  seat : ∃ seat, scene.seats[i]? = some seat ∧ seat.streamer.stream = stream ∧
    seat.streamer.lastSeen = true
  opened : (scene.session.marks e stream).closed = false
  passed : ∀ opened ∈ scene.closing.rest, opened.id ≠ stream

theorem Scene.Doomed.closed {result : Closing × Session (σ × List Bytes)}
    (h : scene.Doomed e stream)
    (hresult : result.1.Swept e scene.closing.rest scene.session result.2) :
    (scene.closed result).Doomed e stream := by
  rcases h with hclosed | ⟨opened, hopened, rfl⟩
  · exact .inl (hresult.closed stream hclosed)
  · exact (hresult.passed opened hopened).imp_right fun hrest => ⟨opened, hrest, rfl⟩

theorem Scene.Spared.closed {result : Closing × Session (σ × List Bytes)}
    (h : scene.Spared e i stream)
    (hresult : result.1.Swept e scene.closing.rest scene.session result.2) :
    (scene.closed result).Spared e i stream where
  seat := h.seat
  opened := (congrArg Lob.Marks.closed (hresult.others stream h.passed)).trans h.opened
  passed opened hopened := h.passed opened (hresult.rest hopened)

/-- Once an execution is closed, a turn is one of a streamer or one that the close can take. -/
theorem Scene.turn_cases (hclosed : scene.session.isExecutionClosed e = true) (turn : Turn) :
    (∃ j move seat, turn = .act j move ∧ scene.seats[j]? = some seat ∧
      scene.turn link.watched e turn =
        scene.seated j (seat.act link.watched e move scene.session)) ∨
    ∃ result, result.1.Swept e scene.closing.rest scene.session result.2 ∧
      scene.turn link.watched e turn = scene.closed result := by
  have hstill : scene.closing.Swept e scene.closing.rest scene.session scene.session :=
    swept_of_executions rfl rfl
  cases turn with
  | openLob reference =>
    exact .inr ⟨(_, _), hstill, Scene.Sound.openLob_of_closed reference hclosed⟩
  | act j move =>
    rw [Scene.turn]
    cases hseat : scene.seats[j]? with
    | none => exact .inr ⟨(_, _), hstill, rfl⟩
    | some seat => exact .inl ⟨j, move, seat, rfl, hseat, rfl⟩
  | closeExecution order =>
    rcases scene.closing.start_cases e order scene.session with
      hsame | ⟨execution, hexecution, hopen, -⟩
    · refine .inr ⟨(_, _), hstill, ?_⟩
      rw [Scene.turn, hsame]
    · rw [isExecutionClosed, hexecution] at hclosed
      exact absurd hclosed (by simp [hopen])
  | resume => exact .inr ⟨_, swept_proceed scene.closing executions_resume, rfl⟩
  | timeOut => exact .inr ⟨_, swept_proceed scene.closing executions_timeOut, rfl⟩
  | listen moment =>
    exact .inr ⟨(scene.closing, Session.listen link.watched moment scene.session),
      swept_of_executions rfl (executions_listen moment), rfl⟩

theorem Scene.isExecutionClosed_turn (hclosed : scene.session.isExecutionClosed e = true)
    (turn : Turn) : (scene.turn link.watched e turn).session.isExecutionClosed e = true := by
  rcases turn_cases hclosed turn with ⟨j, move, seat, -, -, hturn⟩ | ⟨result, hswept, hturn⟩
  · rw [hturn]
    exact (touches_act link e scene.session move seat).isExecutionClosed.trans hclosed
  · rw [hturn]
    exact hswept.executionClosed.trans hclosed

/-- Nobody takes a seat any more. -/
theorem Scene.names_turn (hclosed : scene.session.isExecutionClosed e = true) (turn : Turn) :
    (scene.turn link.watched e turn).seats.map Seat.name = scene.seats.map Seat.name := by
  rcases turn_cases hclosed turn with ⟨j, move, seat, -, hseat, hturn⟩ | ⟨result, -, hturn⟩
  · obtain ⟨hj, rfl⟩ := List.getElem?_eq_some_iff.1 hseat
    rw [hturn, Scene.seated, List.map_set, name_act, ← List.map_set, List.set_getElem_self]
  · rw [hturn]
    rfl

/-- What the close has taken on does not escape it. -/
theorem Scene.Doomed.turn (h : scene.Doomed e stream)
    (hclosed : scene.session.isExecutionClosed e = true) (turn : Turn) :
    (scene.turn link.watched e turn).Doomed e stream := by
  rcases turn_cases hclosed turn with ⟨j, move, seat, -, -, hturn⟩ | ⟨result, hswept, hturn⟩
  · rw [hturn]
    exact h.imp_left (touches_act link e scene.session move seat).closed
  · rw [hturn]
    exact h.closed hswept

/-- Only its own streamer closes a stream that is spared. -/
theorem Scene.Spared.turn (h : scene.Spared e i stream)
    (hclosed : scene.session.isExecutionClosed e = true)
    (hdistinct : (scene.seats.map (·.streamer.stream)).Nodup) {turn : Turn}
    (hturn : turn ≠ .act i .close) : (scene.turn link.watched e turn).Spared e i stream := by
  rcases turn_cases hclosed turn with
    ⟨j, move, other, rfl, hother, hafter⟩ | ⟨result, hswept, hafter⟩
  · -- Its own task may do anything but close it, and the others do not touch its stream.
    rw [hafter]
    obtain ⟨seat, hseat, rfl, hlast⟩ := h.seat
    have htouches := touches_act link e scene.session move other
    by_cases hi : j = i
    · subst hi
      obtain rfl : seat = other := Option.some.inj (hseat.symm.trans hother)
      refine ⟨⟨_, List.getElem?_set_self (List.getElem?_eq_some_iff.1 hseat).1, ?_,
        lastSeen_act hlast move⟩, htouches.opened (fun hmove => hturn (by rw [hmove])) h.opened,
        h.passed⟩
      exact congrArg Prod.fst (name_act link e scene.session move seat)
    · have hne := stream_ne_of_ne hdistinct hother hseat (Ne.symm hi)
      refine ⟨⟨seat, ?_, rfl, hlast⟩, ?_, h.passed⟩
      · rw [Scene.seated, List.getElem?_set_ne hi]
        exact hseat
      · exact (congrArg Lob.Marks.closed (htouches.marks_of_ne hne)).trans h.opened
  · rw [hafter]
    exact h.closed hswept

/-- What the close misses stays as it is for the rest of the run, whatever the other tasks do. -/
theorem Scene.Spared.run (h : scene.Spared e i stream)
    (hclosed : scene.session.isExecutionClosed e = true)
    (hdistinct : (scene.seats.map (·.streamer.stream)).Nodup) {turns : List Turn}
    (hturns : .act i .close ∉ turns) : (scene.run link.watched e turns).Spared e i stream := by
  induction turns generalizing scene with
  | nil => exact h
  | cons turn rest ih =>
    rw [List.mem_cons, not_or] at hturns
    refine ih (h.turn hclosed hdistinct (Ne.symm hturns.1)) (isExecutionClosed_turn hclosed turn) ?_
      hturns.2
    have hnames : (scene.turn link.watched e turn).seats.map Seat.name =
        scene.seats.map Seat.name := names_turn hclosed turn
    have hstreams := congrArg (List.map Prod.fst) hnames
    rw [List.map_map, List.map_map] at hstreams
    exact hstreams ▸ hdistinct

/-- What the close has to come to is closed by the time it has returned, whatever the other tasks
do. -/
theorem Scene.Doomed.run (h : scene.Doomed e stream)
    (hclosed : scene.session.isExecutionClosed e = true) (turns : List Turn) :
    (scene.run link.watched e turns).Doomed e stream := by
  induction turns generalizing scene with
  | nil => exact h
  | cons turn rest ih => exact ih (h.turn hclosed turn) (isExecutionClosed_turn hclosed turn)

theorem Scene.names_run (hclosed : scene.session.isExecutionClosed e = true) (turns : List Turn) :
    (scene.run link.watched e turns).seats.map Seat.name = scene.seats.map Seat.name := by
  induction turns generalizing scene with
  | nil => rfl
  | cons turn rest ih =>
    exact (ih (isExecutionClosed_turn hclosed turn)).trans (names_turn hclosed turn)

theorem Scene.Doomed.steps {p q : Closing × Session (σ × List Bytes)}
    (h : (scene.closed p).Doomed e stream)
    (hsteps : ReflTransGen (Closing.Step link.watched e) p q) :
    (scene.closed q).Doomed e stream := by
  induction hsteps with
  | refl => exact h
  | tail _ hstep ih => exact ih.closed hstep.swept

theorem Scene.Spared.steps {p q : Closing × Session (σ × List Bytes)}
    (h : (scene.closed p).Spared e i stream)
    (hsteps : ReflTransGen (Closing.Step link.watched e) p q) :
    (scene.closed q).Spared e i stream := by
  induction hsteps with
  | refl => exact h
  | tail _ hstep ih => exact ih.closed hstep.swept

theorem Scene.Doomed.refuses (h : scene.Doomed e stream) (hdone : scene.closing.isDone = true)
    {streamer : Streamer Handle} (hstream : streamer.stream = stream) :
    Streamer.Refuses (chunkSource link.watched e) ⟨streamer, scene.session⟩ := by
  subst hstream
  refine Streamer.refuses_of_closed (h.resolve_right ?_)
  rintro ⟨opened, hopened, -⟩
  cases hclosing : scene.closing with
  | done =>
    rw [hclosing] at hopened
    cases hopened
  | _ =>
    rw [hclosing] at hdone
    cases hdone

theorem Scene.Spared.serves (h : scene.Spared e i stream) {seat : Seat}
    (hseat : scene.seats[i]? = some seat) :
    Streamer.Serves (chunkSource link.watched e) ⟨seat.streamer, scene.session⟩ := by
  obtain ⟨same, hsame, hstream, hlast⟩ := h.seat
  obtain rfl : seat = same := Option.some.inj (hseat.symm.trans hsame)
  exact Streamer.serves_of_lastSeen (hstream ▸ h.opened) hlast

end Begun

/-! ## Until the close begins -/

/-- Whether a streamer is open and has come to its last chunk. -/
def Seat.isEnded (e : Nat) {σ : Type} (s : Session σ) (seat : Seat) : Bool :=
  seat.streamer.lastSeen && !(s.marks e seat.streamer.stream).closed

/-- What holds until the close begins, also on a session that is down: the release of a stream is
claimed exactly if the stream is closed or has come to its end. -/
structure Scene.Tended {σ : Type} (link : Link σ) (e : Nat) (id : Int64)
    (scene : Scene (σ × List Bytes)) : Prop where
  sound : ∃ said lost, scene.Sound link e id said lost
  settled : scene.closing.begun = false → ∀ seat ∈ scene.seats,
    (scene.session.marks e seat.streamer.stream).released =
      ((scene.session.marks e seat.streamer.stream).closed || seat.streamer.lastSeen)

section Tended

variable {σ : Type} {link : Link σ} {e : Nat} {id : Int64} {said : List Invocation}
  {lost : List UInt64} {scene next : Scene (σ × List Bytes)}

/-- The close takes on the streams whose release is free. -/
theorem Scene.Sound.exists_unreleased_iff (h : scene.Sound link e id said lost)
    {execution : Execution} (hexecution : scene.session.executions[e]? = some execution)
    {seat : Seat} (hseat : seat ∈ scene.seats) :
    (∃ opened ∈ execution.unreleased, opened.id = seat.streamer.stream) ↔
      (scene.session.marks e seat.streamer.stream).released = false := by
  have hmarks : ∀ opened ∈ execution.streams,
      scene.session.marks e opened.id = opened.marks := fun opened hopened =>
    marks_of_mem hexecution h.tally.distinct hopened
  constructor
  · rintro ⟨opened, hopened, hid⟩
    obtain ⟨hin, hfree⟩ := List.mem_filter.1 hopened
    rw [← hid, hmarks opened hin]
    simpa using hfree
  · intro hfree
    have hname := h.name_mem hseat
    rw [names, hexecution] at hname
    obtain ⟨opened, hopened, hsame⟩ := List.mem_map.1 hname
    obtain ⟨hid, -⟩ := Prod.mk.inj hsame
    refine ⟨opened, List.mem_filter.2 ⟨hopened, ?_⟩, hid⟩
    rw [← hmarks opened hopened, hid, hfree]
    rfl

namespace Scene.Tended

/-- A turn claims a release only for a stream that it closes or brings to its end, as long as the
close has not begun. -/
theorem turn (h : scene.Tended link e id) (hsteady : link.Steady) (turn : Turn)
    (hfew : ∀ reference, turn = .openLob reference →
      scene.session.lastStream.toNat + 1 < 2 ^ 64) :
    (scene.turn link.watched e turn).Tended link e id ∧
      Later link 1 scene.session (scene.turn link.watched e turn).session := by
  obtain ⟨said, lost, hsound⟩ := h.sound
  obtain ⟨more, hsound', hlater⟩ := hsound.turn hsteady turn hfew
  refine ⟨⟨⟨_, _, hsound'⟩, fun hbegun => ?_⟩, hlater⟩
  cases turn with
  | openLob reference =>
    rw [Scene.turn] at hbegun ⊢
    cases hopen : scene.session.isExecutionClosed e with
    | true =>
      rw [Sound.openLob_of_closed reference hopen] at hbegun ⊢
      exact h.settled hbegun
    | false =>
      rw [Sound.openLob_of_open reference hopen] at hbegun ⊢
      exact hsound.settled_withStream reference hopen (hfew reference rfl) _ (h.settled hbegun)
  | act i move =>
    rw [Scene.turn] at hbegun ⊢
    cases hseat : scene.seats[i]? with
    | none =>
      rw [hseat] at hbegun
      exact h.settled hbegun
    | some seat =>
      rw [hseat] at hbegun
      exact hsound.settled_act hseat move (h.settled hbegun)
  | closeExecution order =>
    rw [Scene.turn] at hbegun ⊢
    rcases scene.closing.start_cases e order scene.session with hsame | ⟨execution, -, -, -, hstart⟩
    · rw [hsame] at hbegun ⊢
      exact h.settled hbegun
    · rw [hstart, Scene.closed] at hbegun
      dsimp only at hbegun
      split at hbegun
      · cases hbegun
      · rw [Closing.begun_advance] at hbegun
        cases hbegun
  | resume =>
    have hnone := Closing.eq_notBegun (Closing.begun_proceed.symm.trans hbegun)
    rw [Scene.turn, hnone]
    exact h.settled (by rw [hnone]; rfl)
  | timeOut =>
    have hnone := Closing.eq_notBegun (Closing.begun_proceed.symm.trans hbegun)
    rw [Scene.turn, hnone]
    exact h.settled (by rw [hnone]; rfl)
  | listen moment =>
    intro seat hseat
    rw [Scene.turn, marks_congr (executions_listen moment)]
    exact h.settled hbegun seat hseat

theorem run (h : scene.Tended link e id) (hsteady : link.Steady) (turns : List Turn)
    (hfew : scene.session.lastStream.toNat + turns.length < 2 ^ 64) :
    (scene.run link.watched e turns).Tended link e id := by
  induction turns generalizing scene with
  | nil => exact h
  | cons turn rest ih =>
    rw [List.length_cons] at hfew
    obtain ⟨hturn, hlater⟩ := h.turn hsteady turn fun _ _ => by omega
    have hnumbers := hlater.lastStream_le
    exact ih hturn (by omega)

theorem steps (h : scene.Tended link e id) (hsteady : link.Steady)
    (hsteps : ReflTransGen (Scene.Step link.watched e) scene next) : next.Tended link e id := by
  induction hsteps with
  | refl => exact h
  | tail _ hstep ih =>
    cases hstep with | turn turn halone =>
    refine (ih.turn hsteady turn fun reference hopen => ?_).1
    subst hopen
    exact halone.elim

theorem perform (h : scene.Tended link e id) (hsteady : link.Steady) (hresting : scene.Resting)
    (rounds : Nat) (deed : Deed) (hfew : scene.session.lastStream.toNat + 1 < 2 ^ 64) :
    (scene.perform link.watched e rounds deed).Tended link e id := by
  by_cases hdeed : ∃ reference, deed = .openLob reference
  · obtain ⟨reference, rfl⟩ := hdeed
    exact (h.turn hsteady (.openLob reference) fun _ _ => hfew).1
  · obtain ⟨said, lost, hsound⟩ := h.sound
    exact h.steps hsteady (completes_perform rounds hresting hsound.closing.begun deed
      fun reference hopen => hdeed ⟨reference, hopen⟩)

theorem performAll (h : scene.Tended link e id) (horderly : scene.Orderly link e id said)
    (hsteady : link.Steady) (hresting : scene.Resting) (rounds : Nat) (deeds : List Deed)
    (hfew : scene.session.lastStream.toNat + deeds.length < 2 ^ 64) :
    (scene.performAll link.watched e rounds deeds).Tended link e id := by
  induction deeds generalizing scene said with
  | nil => exact h
  | cons deed rest ih =>
    rw [List.length_cons] at hfew
    obtain ⟨more, horderly', hlater⟩ := horderly.perform hsteady hresting rounds deed (by omega)
    have hnumbers := hlater.lastStream_le
    exact ih (h.perform hsteady hresting rounds deed (by omega)) horderly'
      (resting_perform hresting deed) (by omega)

variable (link) in
theorem start {s : Session σ} (hbegun : s.executions[e]? = some (Execution.start id)) :
    (Scene.start s.watch).Tended link e id :=
  ⟨⟨[], [], .start link hbegun⟩, fun _ _ hseat => absurd hseat List.not_mem_nil⟩

/-- **The close takes on every stream but those that have come to their last chunk**: the release of
the others is claimed only if they are closed. -/
theorem begins (h : scene.Tended link e id) {order : List LobStream}
    (hbefore : scene.closing.begun = false)
    (hafter : (scene.closing.start e order scene.session).1.begun = true) :
    let next := scene.closed (scene.closing.start e order scene.session)
    next.session.isExecutionClosed e = true ∧ ∀ i seat, scene.seats[i]? = some seat →
      (seat.isEnded e scene.session = false → next.Doomed e seat.streamer.stream) ∧
      (seat.isEnded e scene.session = true → next.Spared e i seat.streamer.stream) := by
  obtain ⟨said, lost, hsound⟩ := h.sound
  rcases scene.closing.start_cases e order scene.session with
    hsame | ⟨execution, hexecution, -, horder, hstart⟩
  · rw [hsame, hbefore] at hafter
    cases hafter
  have hswept := swept_start hstart
  refine ⟨hswept.executionClosed.trans isExecutionClosed_withClosed, fun i seat hseat => ?_⟩
  have hsettled := h.settled hbefore seat (List.mem_of_getElem? hseat)
  have hfree := hsound.exists_unreleased_iff hexecution (List.mem_of_getElem? hseat)
  -- On an open stream that has not come to its end the release is free, so that the close takes it
  -- on; once the stream has come to its end it is not, so that the close passes it over.
  refine ⟨fun hended => ?_, fun hended => ?_⟩
  · cases hclosed : (scene.session.marks e seat.streamer.stream).closed with
    | true =>
      refine .inl (hswept.closed _ ?_)
      rwa [marks_withClosed]
    | false =>
      have hlast : seat.streamer.lastSeen = false := by simpa [Seat.isEnded, hclosed] using hended
      rw [hclosed, hlast] at hsettled
      obtain ⟨opened, hopened, hid⟩ := hfree.2 hsettled
      have hpassed := hswept.passed opened (horder.mem_iff.2 hopened)
      rw [hid] at hpassed
      exact hpassed.imp_right fun hrest => ⟨opened, hrest, hid⟩
  · obtain ⟨hlast, hclosed⟩ := Bool.and_eq_true_iff.1 hended
    rw [Bool.not_eq_true'] at hclosed
    rw [hlast, Bool.or_true] at hsettled
    have hmissed : ∀ opened ∈ order, opened.id ≠ seat.streamer.stream := by
      intro opened hopened hid
      have hnot := hfree.1 ⟨opened, horder.mem_iff.1 hopened, hid⟩
      rw [hsettled] at hnot
      cases hnot
    have hsame := hswept.others _ hmissed
    rw [marks_withClosed] at hsame
    exact ⟨⟨seat, hseat, rfl, hlast⟩, (congrArg Lob.Marks.closed hsame).trans hclosed,
      fun opened hopened => hmissed opened (hswept.rest hopened)⟩

/-- The same of a close that is completed before anything else happens. -/
theorem closes (h : scene.Tended link e id) (hopen : scene.session.isExecutionClosed e = false)
    (rounds i : Nat) (seat : Seat) (hseat : scene.seats[i]? = some seat) :
    let next := scene.perform link.watched e rounds .closeExecution
    (seat.isEnded e scene.session = false → next.Doomed e seat.streamer.stream) ∧
      (seat.isEnded e scene.session = true → next.Spared e i seat.streamer.stream) := by
  obtain ⟨said, lost, hsound⟩ := h.sound
  have hbefore : scene.closing.begun = false := hsound.closing.begun.symm.trans hopen
  obtain ⟨execution, hexecution, hexecutionOpen⟩ := exists_of_open hopen
  have hsteps : ReflTransGen (Closing.Step link.watched e)
      (Closing.start e execution.unreleased .notBegun scene.session)
      (.done, (exec (closeExecution link.watched e) scene.session).2) :=
    completes_closeExecution hexecution hexecutionOpen
  rw [← Closing.eq_notBegun hbefore] at hsteps
  have hbegun : (scene.closing.start e execution.unreleased scene.session).1.begun = true := by
    rw [Closing.eq_notBegun hbefore, start_unreleased hexecution hexecutionOpen]
    split
    · rfl
    · exact Closing.begun_advance ..
  obtain ⟨hdoomed, hspared⟩ := (h.begins hbefore hbegun).2 i seat hseat
  exact ⟨fun hended => (hdoomed hended).steps hsteps, fun hended => (hspared hended).steps hsteps⟩

end Scene.Tended

end Tended

/-! ## What comes of the streamers -/

section Closing

variable {σ : Type} {link : Link σ} {e : Nat} {id : Int64}

/-- **The close of an execution closes every streamer that has not come to its last chunk, and no
other**, whether the session is up or down. Once a close that nobody interrupted has returned, no
read goes through on the former, and the latter deliver what they hold. The same holds whatever
turns the tasks took before the close began, whatever order it went through the streams in, and
whatever turns they took in between and afterwards, except that a streamer may still be closed
by its own task. -/
theorem closes_all_but_ended {s : Session σ} (hsteady : link.Steady)
    (hbegun : s.executions[e]? = some (Execution.start id)) :
    (∀ (rounds : Nat) (deeds : List Deed), s.lastStream.toNat + deeds.length < 2 ^ 64 →
      let before := (Scene.start s.watch).performAll link.watched e rounds deeds
      let after := before.perform link.watched e rounds .closeExecution
      before.session.isExecutionClosed e = false → ∀ seat ∈ after.seats,
        if seat.isEnded e before.session then
          Streamer.Serves (chunkSource link.watched e) ⟨seat.streamer, after.session⟩
        else Streamer.Refuses (chunkSource link.watched e) ⟨seat.streamer, after.session⟩) ∧
    ∀ (turns later : List Turn) (order : List LobStream),
      s.lastStream.toNat + turns.length < 2 ^ 64 →
      let before := (Scene.start s.watch).run link.watched e turns
      let after := before.run link.watched e (.closeExecution order :: later)
      before.closing.begun = false →
      (before.turn link.watched e (.closeExecution order)).closing.begun = true →
      after.closing.isDone = true →
      after.seats.map Seat.name = before.seats.map Seat.name ∧
      ∀ (i : Nat) (was seat : Seat), before.seats[i]? = some was → after.seats[i]? = some seat →
        if was.isEnded e before.session then
          .act i .close ∉ later →
            Streamer.Serves (chunkSource link.watched e) ⟨seat.streamer, after.session⟩
        else Streamer.Refuses (chunkSource link.watched e) ⟨seat.streamer, after.session⟩ := by
  have hstart : (Scene.start s.watch).Tended link e id := .start link hbegun
  refine ⟨fun rounds deeds hfew => ?_, fun turns later order hfew => ?_⟩
  · intro before after hopen seat hseat
    have hresting : (Scene.start s.watch).Resting :=
      ⟨rfl, fun _ hseat => absurd hseat List.not_mem_nil⟩
    have hbefore : before.Tended link e id :=
      hstart.performAll (.start link hbegun) hsteady hresting rounds deeds hfew
    obtain ⟨i, hi⟩ := List.mem_iff_getElem?.1 hseat
    obtain ⟨hdoomed, hspared⟩ := hbefore.closes hopen rounds i seat hi
    split
    · next hended => exact (hspared hended).serves hi
    · next hended => exact (hdoomed (Bool.eq_false_of_not_eq_true hended)).refuses rfl rfl
  · intro before after hnone hbegins hdone
    have hbefore : before.Tended link e id := hstart.run hsteady turns hfew
    obtain ⟨hclosed, hbegin⟩ := hbefore.begins hnone hbegins
    have hnames : after.seats.map Seat.name = before.seats.map Seat.name :=
      Scene.names_run hclosed later
    refine ⟨hnames, fun i was seat hwas hseat => ?_⟩
    obtain ⟨hdoomed, hspared⟩ := hbegin i was hwas
    split
    · next hended =>
      intro hlater
      obtain ⟨said, lost, hsound⟩ := hbefore.sound
      exact ((hspared hended).run hclosed hsound.distinct hlater).serves hseat
    · next hended =>
      have hafter : after.Doomed e was.streamer.stream :=
        (hdoomed (Bool.eq_false_of_not_eq_true hended)).run hclosed later
      have hname : some seat.name = some was.name := by
        rw [← Option.map_some, ← Option.map_some, ← hseat, ← hwas, ← List.getElem?_map,
          ← List.getElem?_map, hnames]
      exact hafter.refuses hdone (congrArg Prod.fst (Option.some.inj hname))

end Closing

/-- Two streams are opened. The first has come to its last chunk, and one byte of that is read. -/
def halfway : Scene (Inflow × List Bytes) :=
  (Scene.start (answeredBy chunkReplies).watch).performAll scriptedLink.watched 0 3
    [.openLob ⟨"a", .blob, none⟩, .openLob ⟨"b", .blob, none⟩, .read 0 (.bytes .byte)]

def halfwayClosed : Scene (Inflow × List Bytes) :=
  halfway.perform scriptedLink.watched 0 3 .closeExecution

/-- Two streams are opened. The last chunk of the first has just come in, and the second waits for a
chunk. -/
def caughtTurns : List Turn :=
  [.openLob ⟨"a", .blob, none⟩, .openLob ⟨"b", .blob, none⟩, .act 0 .read, .act 0 .resume,
    .listen 1, .act 0 .resume, .act 1 .read, .act 1 .resume]

def caught : Scene (Inflow × List Bytes) :=
  (Scene.start (answeredBy chunkReplies).watch).run scriptedLink.watched 0 caughtTurns

/-- The close sends both of its calls and waits for neither reply. -/
def hastyTurns : List Turn :=
  [.resume, .timeOut, .resume, .timeOut]

def caughtClosed : Scene (Inflow × List Bytes) :=
  caught.run scriptedLink.watched 0
    (.closeExecution [⟨2, ⟨"b", .blob, none⟩, ⟨false, false⟩⟩] :: hastyTurns)

/-- The second streamer is closed, also while it waits for a chunk, and the first is not. -/
theorem closes_all_but_ended_halfway :
    (∃ held unread, halfwayClosed.seats = [held, unread] ∧
      Streamer.Serves (chunkSource scriptedLink.watched 0)
        ⟨held.streamer, halfwayClosed.session⟩ ∧
      Streamer.Refuses (chunkSource scriptedLink.watched 0)
        ⟨unread.streamer, halfwayClosed.session⟩) ∧
    ∃ held waiting, caughtClosed.seats = [held, waiting] ∧
      Streamer.Serves (chunkSource scriptedLink.watched 0) ⟨held.streamer, caughtClosed.session⟩ ∧
      Streamer.Refuses (chunkSource scriptedLink.watched 0)
        ⟨waiting.streamer, caughtClosed.session⟩ := by
  have hsteady : scriptedLink.Steady := fun _ _ _ => rfl
  have hbegun : (answeredBy chunkReplies).executions[0]? = some (Execution.start 1) := by decide
  obtain ⟨hdeeds, hturns⟩ := closes_all_but_ended hsteady hbegun
  constructor
  · have hended : halfwayClosed.seats.map (Seat.isEnded 0 halfway.session) = [true, false] := by
      decide +kernel
    obtain ⟨held, unread, hseats⟩ : ∃ held unread, halfwayClosed.seats = [held, unread] :=
      List.length_eq_two.1 (by decide +kernel)
    have hall := hdeeds 3 [.openLob ⟨"a", .blob, none⟩, .openLob ⟨"b", .blob, none⟩,
      .read 0 (.bytes .byte)] (by decide) (by decide +kernel)
    have hheld := hall held (by rw [← halfway, ← halfwayClosed, hseats]; simp)
    have hunread := hall unread (by rw [← halfway, ← halfwayClosed, hseats]; simp)
    simp only [hseats, List.map_cons, List.map_nil, List.cons.injEq, and_true] at hended
    rw [← halfway, hended.1] at hheld
    rw [← halfway, hended.2] at hunread
    exact ⟨held, unread, hseats, hheld, hunread⟩
  · have hended : caught.seats.map (Seat.isEnded 0 caught.session) = [true, false] := by
      decide +kernel
    obtain ⟨first, second, hcaught⟩ : ∃ first second, caught.seats = [first, second] :=
      List.length_eq_two.1 (by decide +kernel)
    obtain ⟨held, waiting, hseats⟩ : ∃ held waiting, caughtClosed.seats = [held, waiting] :=
      List.length_eq_two.1 (by decide +kernel)
    obtain ⟨-, hall⟩ := hturns caughtTurns hastyTurns
      [⟨2, ⟨"b", .blob, none⟩, ⟨false, false⟩⟩] (by decide) (by decide +kernel) (by decide +kernel)
      (by decide +kernel)
    rw [← caught, ← caughtClosed, hcaught, hseats] at hall
    have hheld := hall 0 first held rfl rfl
    have hwaiting := hall 1 second waiting rfl rfl
    simp only [hcaught, List.map_cons, List.map_nil, List.cons.injEq, and_true] at hended
    rw [hended.1, if_pos rfl] at hheld
    rw [hended.2] at hwaiting
    exact ⟨held, waiting, hseats, hheld (by decide), hwaiting⟩

/-- **A streamer outlives its execution**: its last chunk has come in and a byte of that has been
read, the execution is closed on a session that is up, and the streamer does not count as closed and
delivers the other byte. Had it been read to its end, it would say that it is at its end. -/
theorem held_bytes_outlive :
    (let scene := (Scene.start (answeredBy chunkReplies).watch).performAll scriptedLink.watched 0 3
      [.openLob ⟨"a", .blob, none⟩, .read 0 (.bytes .byte), .closeExecution]
    scene.session.isUp scriptedLink.watched = true ∧ scene.session.isExecutionClosed 0 = true ∧
      scene.seats.map (fun seat => ((scene.session.marks 0 seat.streamer.stream).closed,
        (Attempt.exec ((Streamer.Retrieval.bytes .byte).perform (chunkSource scriptedLink.watched 0)
          1) ⟨seat.streamer, scene.session⟩).1)) = [(false, .ok [8])]) ∧
    let scene := (Scene.start (answeredBy chunkReplies).watch).performAll scriptedLink.watched 0 3
      [.openLob ⟨"a", .blob, none⟩, .read 0 .rest, .closeExecution]
    scene.session.isUp scriptedLink.watched = true ∧ scene.session.isExecutionClosed 0 = true ∧
      scene.seats.map (fun seat => ((scene.session.marks 0 seat.streamer.stream).closed,
        (Attempt.exec ((Streamer.Retrieval.bytes .byte).perform (chunkSource scriptedLink.watched 0)
          1) ⟨seat.streamer, scene.session⟩).1)) = [(false, .ok [])] := by
  decide +kernel

end QueryClient.Session
