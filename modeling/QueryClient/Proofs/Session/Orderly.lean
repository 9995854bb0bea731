import QueryClient.Proofs.Session.Deeds
import QueryClient.Proofs.Session.Interleaving

/-!
# One release for each stream

As long as no task interrupts another, no claim of a release is made in vain: the streams that are
still open when the close begins are released by the close, and nothing is sent behind the call that
ends the execution. So after any operations that were completed, the calls that have been sent are
known from what the streamers and the execution have come to.
-/

namespace QueryClient.Streamer

open Attempt Lob

section Closed

variable {σ H : Type} {source : ChunkSource σ H} {d : Desk σ H}

/-- The fault of a read on a streamer that is closed. That there is no text to read is noticed
before. -/
def Retrieval.refusal (kind : LobKind) : Retrieval → Fault
  | .char | .text =>
    if kind.isCharacter then .streamClosed else .conversion (.notCharacters kind)
  | .bytes _ | .rest => .streamClosed

variable (hclosed : (source.marks d.streamer.stream d.source).closed = true)
include hclosed

theorem exec_fill_of_closed (rounds : Nat) :
    exec (fill source (rounds + 1)) d = (.error (.fault .streamClosed), d) := by
  rw [fill, exec_bind_error (exec_ensureOpen_of_closed hclosed)]

/-- No read changes anything on a streamer that is closed. -/
theorem exec_retrieve_of_closed (call : Retrieval) (rounds : Nat) :
    exec (call.perform source (rounds + 1)) d =
      (.error (.fault (call.refusal d.streamer.reference.kind)), d) := by
  have hfill := exec_fill_of_closed hclosed rounds
  have hchunks : exec (readChunks source (rounds + 1) (rounds + 1) []) d =
      (.error (.fault .streamClosed), d) := by
    rw [readChunks, exec_bind_error hfill]
  have hbyte : exec (readByte source (rounds + 1)) d = (.error (.fault .streamClosed), d) := by
    rw [readByte, exec_bind_error hfill]
  cases call with
  | bytes call =>
    by_cases hmost : call.most = 0
    · cases call with
      | byte => cases hmost
      | upTo n =>
        obtain rfl : n = 0 := hmost
        rw [Retrieval.perform, ReadCall.perform, read, if_pos rfl,
          exec_bind_error (exec_ensureOpen_of_closed hclosed)]
        rfl
    · rw [Retrieval.perform, exec_perform call hmost, drain, exec_bind_error hfill]
      rfl
  | rest => exact hchunks
  | char =>
    rw [Retrieval.perform, exec_bind, readChar, exec_bind, exec_ensureCharacters]
    cases hkind : d.streamer.reference.kind.isCharacter with
    | true => simp [exec_bind_error hbyte, Retrieval.refusal, hkind]
    | false => simp [Retrieval.refusal, hkind]
  | text =>
    rw [Retrieval.perform, exec_bind, readToString, exec_bind, exec_ensureCharacters]
    cases hkind : d.streamer.reference.kind.isCharacter with
    | true => simp [readToEnd, exec_bind_error hchunks, Retrieval.refusal, hkind]
    | false => simp [Retrieval.refusal, hkind]

end Closed

end QueryClient.Streamer

namespace QueryClient.Session

open Relation (ReflTransGen)

variable {σ : Type} {link : Link σ} {e : Nat} {id : Int64} {said : List Invocation}
  {scene next : Scene (σ × List Bytes)}

/-- Nothing is made ready for a streamer once the execution is closed. -/
theorem Acted.unsent_of_closed {s t : Session (σ × List Bytes)} {seat after : Seat}
    (h : Acted link e s seat (after, t)) (hclosed : s.isExecutionClosed e = true)
    (hidle : seat.unsent = []) : after.unsent = [] := by
  cases h with
  | still hunsent _ _ => exact hunsent.trans hidle
  | asked _ _ _ hopen _ _ _ =>
    rw [hclosed] at hopen
    cases hopen
  | sent _ hafter _ _ => exact hafter
  | refused _ hafter _ _ _ => exact hafter
  | kept _ hafter _ _ _ _ => exact hafter
  | lapsed _ hafter _ _ _ _ _ => exact hafter
  | claimed _ _ _ _ _ hopen _ _ _ _ _ =>
    rw [hclosed] at hopen
    cases hopen
  | forgone _ hafter _ _ _ _ _ _ => exact hafter

namespace Closing.Sound

variable {closing : Closing} {s : Session (σ × List Bytes)}

theorem ends_le (closing : Closing) : closing.ends ≤ 1 := by
  cases closing <;> simp [ends]

theorem begun_of_ends (h : closing.ends = 1) : closing.begun = true := by
  cases closing with
  | notBegun => cases h
  | _ => rfl

/-- What the close still has to send behind all streams ends the execution. -/
theorem isEnd_of_ends (h : closing.Sound link e id s) (hends : closing.ends = 1) :
    ∀ call ∈ closing.unsent, call.isEnd id = true := by
  cases closing with
  | ending pause => exact h.apt
  | done => exact fun _ hcall => absurd hcall List.not_mem_nil
  | _ => cases hends

end Closing.Sound

/-- Whether the last of some calls ends an execution. -/
def EndsWith (id : Int64) (said : List Invocation) : Prop :=
  ∃ before call, said = before ++ [call] ∧ call.isEnd id = true

/-- If the execution is ended once, and what may yet be sent ends it, then it is ended last. -/
theorem endsWith_append {more unsent : List Invocation} (hmore : more = [] ∨ more = unsent)
    (hends : ∀ call ∈ unsent, call.isEnd id = true) (hdone : unsent = [] → EndsWith id said)
    (honce : said.countP (·.isEnd id) + unsent.countP (·.isEnd id) ≤ 1)
    (hended : 1 ≤ (said ++ more).countP (·.isEnd id)) : EndsWith id (said ++ more) := by
  have hlength : unsent.countP (·.isEnd id) = unsent.length := List.countP_eq_length.2 hends
  rcases hmore with rfl | rfl
  · rw [List.append_nil] at hended ⊢
    exact hdone (List.length_eq_zero_iff.1 (by omega))
  · rcases List.eq_nil_or_concat more with rfl | ⟨init, last, rfl⟩
    · rw [List.append_nil]
      exact hdone rfl
    · rw [List.concat_eq_append] at hends ⊢
      exact ⟨said ++ init, last, (List.append_assoc ..).symm, hends last (by simp)⟩

/-- What holds as long as no task interrupts another. No claim is made in vain, the streamers have
nothing to send once the close has begun, and what is sent last is the call that ends the execution.
-/
structure Scene.Orderly (link : Link σ) (e : Nat) (id : Int64) (said : List Invocation)
    (scene : Scene (σ × List Bytes)) : Prop where
  sound : ∃ lost, scene.Sound link e id said lost ∧
    (scene.session.isUp link.watched = true → lost = [])
  quiet : scene.closing.begun = true → scene.seats.flatMap Seat.unsent = []
  sealed : scene.session.isUp link.watched = true → Endable scene.session.settings id →
    scene.closing.ends = 1 → scene.closing.unsent = [] → EndsWith id said

namespace Scene.Orderly

/-- A streamer takes its turn while the close is not under way. -/
theorem act (h : Orderly link e id said scene) {i : Nat} {seat : Seat}
    (hseat : scene.seats[i]? = some seat) (hresting : scene.closing.isResting = true)
    (move : Seat.Move) :
    ∃ more, Orderly link e id (said ++ more)
        (scene.seated i (seat.act link.watched e move scene.session)) ∧
      Later link 0 scene.session (seat.act link.watched e move scene.session).2 := by
  obtain ⟨lost, hsound, hlost⟩ := h.sound
  obtain ⟨more, hmore, hsound', hbeside⟩ := hsound.act hseat move
  have hmem : seat ∈ scene.seats := List.mem_of_getElem? hseat
  have hname : seat.name ∈ scene.session.names e := hsound.seated ▸ List.mem_map_of_mem hmem
  have hquiet : scene.closing.begun = true → ∀ other ∈ scene.seats, other.unsent = [] :=
    fun hbegun => List.flatMap_eq_nil_iff.1 (h.quiet hbegun)
  refine ⟨more, ⟨⟨_, hsound', fun hup => ?_⟩, fun hbegun => ?_,
    fun hup hendable hends hunsent => ?_⟩, .of_eq hbeside.settings hbeside.lastStream hbeside.up⟩
  · rw [hlost (hbeside.up hup), List.nil_append]
    rcases Closing.eq_of_isResting hresting with hclosing | hclosing
    · exact Acted.lapses_of_open (hsound.closing.begun.trans (by rw [hclosing]; rfl))
    · have hreleased : (scene.session.marks e seat.streamer.stream).released = true :=
        hsound.closing.released hclosing (hbeside.up hup) hname
      simp [Session.lapses, hreleased]
  · have hclosed : scene.session.isExecutionClosed e = true := hsound.closing.begun.trans hbegun
    have hidle := hquiet hbegun seat hmem
    have hacted := acted_act link e scene.session move seat (by simp [hidle])
    have hafter := hacted.unsent_of_closed hclosed hidle
    refine List.flatMap_eq_nil_iff.2 fun other hother => ?_
    rcases List.mem_or_eq_of_mem_set hother with hother | rfl
    · exact hquiet hbegun other hother
    · exact hafter
  · have hbegun := Closing.Sound.begun_of_ends hends
    have hnone : more = [] := by
      rcases hmore with hmore | hmore
      · exact hmore
      · rw [hmore, hquiet hbegun seat hmem]
    rw [hnone, List.append_nil]
    have hendable' : Endable scene.session.settings id := hbeside.settings ▸ hendable
    exact h.sealed (hbeside.up hup) hendable' hends hunsent

/-- The close takes its turn. -/
theorem close (h : Orderly link e id said scene) {result : Closing × Session (σ × List Bytes)}
    (hresult : ∀ {others : List Invocation} {lost : List UInt64},
      scene.closing.Sound link e id scene.session →
      Tally link e id said (scene.closing.unsent ++ others) lost scene.closing.ends scene.session →
      scene.closing.Turned link e id said others lost scene.session result.1 result.2)
    (hquiet : result.1.begun = true → scene.seats.flatMap Seat.unsent = []) :
    ∃ more, Orderly link e id (said ++ more) (scene.closed result) ∧
      Later link 0 scene.session result.2 := by
  obtain ⟨lost, hsound, hlost⟩ := h.sound
  obtain ⟨more, hmore, hsound', haround⟩ := hsound.close fun htally => hresult hsound.closing htally
  refine ⟨more, ⟨⟨lost, hsound', fun hup => hlost (haround.up hup)⟩, hquiet,
    fun hup hendable hends hunsent => ?_⟩, .of_eq haround.settings haround.lastStream haround.up⟩
  have hseats := hquiet (Closing.Sound.begun_of_ends hends)
  have hafter := hsound'.tally.ended hup hendable
  have hbefore := hsound.tally.ended_le
  have hbound := Closing.Sound.ends_le scene.closing
  have hunsent' : (scene.closed result).unsent = [] := by
    rw [Scene.unsent, hunsent]
    exact hseats
  rw [hends, hunsent'] at hafter
  rw [Scene.unsent, hseats, List.append_nil] at hbefore
  simp only [endings, List.countP_nil, Nat.add_zero] at hafter hbefore
  have hcount : (said ++ more).countP (·.isEnd id) ≤
      said.countP (·.isEnd id) + scene.closing.unsent.countP (·.isEnd id) := by
    rw [List.countP_append]
    rcases hmore with rfl | rfl
    · simp
    · exact Nat.le_refl _
  have hends' : scene.closing.ends = 1 := by omega
  refine endsWith_append hmore (hsound.closing.isEnd_of_ends hends') (fun hnone => ?_)
    (hbefore.trans_eq hends') hafter
  have hendable' : Endable scene.session.settings id := haround.settings ▸ hendable
  exact h.sealed (haround.up hup) hendable' hends' hnone

theorem listen (h : Orderly link e id said scene) (hsteady : link.Steady) (moment : Instant) :
    Orderly link e id said
        { scene with session := Session.listen link.watched moment scene.session } ∧
      Later link 0 scene.session (Session.listen link.watched moment scene.session) := by
  obtain ⟨lost, hsound, hlost⟩ := h.sound
  have hfollows := Follows.listen (s := scene.session) hsteady moment
  refine ⟨⟨⟨lost, hsound.listen hsteady moment, fun hup => hlost (hfollows.up hup)⟩, h.quiet,
    fun hup hendable => ?_⟩, .of_eq hfollows.settings hfollows.lastStream hfollows.up⟩
  dsimp only at hendable
  rw [hfollows.settings] at hendable
  exact h.sealed (hfollows.up hup) hendable

/-- **A turn that interrupts nobody keeps things in order.** -/
theorem step (h : Orderly link e id said scene) (hsteady : link.Steady)
    (hstep : Scene.Step link.watched e scene next) :
    ∃ more, Orderly link e id (said ++ more) next ∧ Later link 0 scene.session next.session := by
  cases hstep with | turn turn halone =>
  cases turn with
  | openLob reference => exact halone.elim
  | act i move =>
    rw [Scene.turn]
    cases hseat : scene.seats[i]? with
    | none => exact ⟨[], by rwa [List.append_nil], .refl _⟩
    | some seat => exact h.act hseat halone move
  | closeExecution order =>
    exact h.close (fun hclosing htally => turned_start order htally hclosing)
      fun _ => unsent_of_resting halone
  | resume =>
    exact h.close (fun hclosing htally => turned_proceed htally hclosing fun _ => stepped_resume)
      fun hbegun => h.quiet (Closing.begun_proceed.symm.trans hbegun)
  | timeOut =>
    exact h.close (fun hclosing htally => turned_proceed htally hclosing fun _ _ => stepped_timeOut)
      fun hbegun => h.quiet (Closing.begun_proceed.symm.trans hbegun)
  | listen moment =>
    refine ⟨[], ?_⟩
    rw [List.append_nil]
    exact h.listen hsteady moment

theorem steps (h : Orderly link e id said scene) (hsteady : link.Steady)
    (hsteps : ReflTransGen (Scene.Step link.watched e) scene next) :
    ∃ more, Orderly link e id (said ++ more) next ∧ Later link 0 scene.session next.session := by
  induction hsteps with
  | refl => exact ⟨[], by rwa [List.append_nil], .refl _⟩
  | tail _ hstep ih =>
    obtain ⟨more, hbefore, hlater⟩ := ih
    obtain ⟨last, hafter, hlater'⟩ := hbefore.step hsteady hstep
    refine ⟨more ++ last, ?_, hlater.trans hlater'⟩
    rwa [← List.append_assoc]

theorem openLob (h : Orderly link e id said scene) (reference : LobReference)
    (hfew : scene.session.lastStream.toNat + 1 < 2 ^ 64) :
    Orderly link e id said (scene.openLob e reference) ∧
      Later link 1 scene.session (scene.openLob e reference).session := by
  obtain ⟨lost, hsound, hlost⟩ := h.sound
  obtain ⟨hsound', hlater⟩ := hsound.openLob reference hfew
  refine ⟨?_, hlater⟩
  cases hopen : scene.session.isExecutionClosed e with
  | true =>
    rw [Scene.Sound.openLob_of_closed reference hopen]
    exact h
  | false =>
    have hbefore : scene.closing = .notBegun :=
      Closing.eq_notBegun (hsound.closing.begun.symm.trans hopen)
    have hafter : (scene.openLob e reference).closing = .notBegun := by
      rw [Scene.Sound.openLob_of_open reference hopen]
      exact hbefore
    refine ⟨⟨lost, hsound', fun hup => hlost (hlater.up hup)⟩, fun hbegun => ?_,
      fun _ _ hends => ?_⟩
    · rw [hafter] at hbegun
      cases hbegun
    · rw [hafter] at hends
      cases hends

/-- **An operation that is completed keeps things in order.** -/
theorem perform (h : Orderly link e id said scene) (hsteady : link.Steady)
    (hresting : scene.Resting) (rounds : Nat) (deed : Deed)
    (hfew : scene.session.lastStream.toNat + 1 < 2 ^ 64) :
    ∃ more, Orderly link e id (said ++ more) (scene.perform link.watched e rounds deed) ∧
      Later link 1 scene.session (scene.perform link.watched e rounds deed).session := by
  by_cases hdeed : ∃ reference, deed = .openLob reference
  · obtain ⟨reference, rfl⟩ := hdeed
    refine ⟨[], ?_⟩
    rw [List.append_nil]
    exact h.openLob reference hfew
  · obtain ⟨lost, hsound, -⟩ := h.sound
    obtain ⟨more, hafter, hlater⟩ := h.steps hsteady (completes_perform rounds hresting
      hsound.closing.begun deed fun reference heq => hdeed ⟨reference, heq⟩)
    exact ⟨more, hafter, hlater.settings, hlater.up, hlater.lastStream_le.trans (Nat.le_succ _)⟩

theorem performAll (h : Orderly link e id said scene) (hsteady : link.Steady)
    (hresting : scene.Resting) (rounds : Nat) (deeds : List Deed)
    (hfew : scene.session.lastStream.toNat + deeds.length < 2 ^ 64) :
    ∃ more, Orderly link e id (said ++ more) (scene.performAll link.watched e rounds deeds) ∧
      (scene.performAll link.watched e rounds deeds).Resting ∧
      Later link deeds.length scene.session
        (scene.performAll link.watched e rounds deeds).session := by
  induction deeds generalizing scene said with
  | nil => exact ⟨[], by rwa [List.append_nil], hresting, .refl _⟩
  | cons deed rest ih =>
    rw [List.length_cons] at hfew
    obtain ⟨more, hfirst, hlater⟩ := h.perform hsteady hresting rounds deed (by omega)
    have hnumbers := hlater.lastStream_le
    obtain ⟨last, hrest, hresting', hlater'⟩ :=
      ih hfirst (resting_perform hresting deed) (by omega)
    refine ⟨more ++ last, ?_, hresting', ?_⟩
    · rw [← List.append_assoc]
      exact hrest
    · rw [List.length_cons, Nat.add_comm]
      exact hlater.trans hlater'

variable (link) in
/-- Nothing has happened before the first operation. -/
theorem start {s : Session σ} (hbegun : s.executions[e]? = some (Execution.start id)) :
    Orderly link e id [] (Scene.start s.watch) :=
  ⟨⟨[], .start link hbegun, fun _ => rfl⟩, fun hdone => (by cases hdone),
    fun _ _ hends => (by cases hends)⟩

end Scene.Orderly

/-! ## What has been sent -/

/-- What the session has sent for an execution once no operation is under way, and what comes of
operations on it that is closed. -/
structure Scene.Discharged (link : Link σ) (e : Nat) (id : Int64) (said : List Invocation)
    (scene : Scene (σ × List Bytes)) : Prop where
  frames : Said scene.session.settings said scene.session.link.2
  distinct : (scene.seats.map (·.streamer.stream)).Nodup
  /-- No stream is released twice. -/
  atMostOnce : ∀ seat ∈ scene.seats, said.countP (·.isRelease id seat.streamer.stream) ≤ 1
  /-- A stream is released once it has come to its end or it or the execution is closed. -/
  released : ∀ seat ∈ scene.seats, Releasable scene.session.settings id seat.name →
    said.countP (·.isRelease id seat.streamer.stream) =
      if seat.streamer.lastSeen || (scene.session.marks e seat.streamer.stream).closed ||
        scene.session.isExecutionClosed e then 1 else 0
  unended : scene.session.isExecutionClosed e = false → said.countP (·.isEnd id) = 0
  /-- The execution is ended once, behind everything else. -/
  ended : scene.session.isExecutionClosed e = true →
    EndsWith id said ∧ said.countP (·.isEnd id) = 1
  /-- A stream that has not come to its end cannot be read once the execution is closed. -/
  refused : scene.session.isExecutionClosed e = true → ∀ seat ∈ scene.seats,
    seat.streamer.lastSeen = false → ∀ (call : Streamer.Retrieval) (rounds : Nat),
      Attempt.exec (call.perform (chunkSource link.watched e) (rounds + 1))
          ⟨seat.streamer, scene.session⟩ =
        (.error (.fault (call.refusal seat.streamer.reference.kind)),
          ⟨seat.streamer, scene.session⟩)
  /-- Nothing is asked for once the execution is closed. -/
  unasked : scene.session.isExecutionClosed e = true →
    (∀ start count, exec (requestBatch link.watched e start count) scene.session =
      (.error .cursorClosed, scene.session)) ∧
    ∀ stream reference, exec (requestChunk link.watched e stream reference) scene.session =
      (.error .cursorClosed, scene.session)

theorem exec_ensureExecutionOpen_of_closed {s : Session σ} (h : s.isExecutionClosed e = true) :
    exec (ensureExecutionOpen e) s = (.error .cursorClosed, s) := by
  simp [ensureExecutionOpen, exec_bind, h]

theorem exec_requestBatch_of_closed {s : Session σ} (h : s.isExecutionClosed e = true)
    (start count : Int) : exec (requestBatch link e start count) s = (.error .cursorClosed, s) := by
  rw [requestBatch, exec_bind, exec_ensureExecutionOpen_of_closed h]

theorem Scene.Resting.unsent_eq_nil (h : scene.Resting) : scene.unsent = [] := by
  rw [Scene.unsent, unsent_of_resting h.seats]
  rcases Closing.eq_of_isResting h.closing with hclosing | hclosing <;> rw [hclosing] <;> rfl

namespace Scene.Sound

variable {lost : List UInt64} {seat : Seat}

theorem closing_eq_done (h : scene.Sound link e id said lost) (hresting : scene.Resting)
    (hclosed : scene.session.isExecutionClosed e = true) : scene.closing = .done := by
  refine (Closing.eq_of_isResting hresting.closing).resolve_left fun hclosing => ?_
  rw [h.closing.begun, hclosing] at hclosed
  cases hclosed

theorem released_of_closed (h : scene.Sound link e id said lost) (hresting : scene.Resting)
    (hup : scene.session.isUp link.watched = true)
    (hclosed : scene.session.isExecutionClosed e = true) (hseat : seat ∈ scene.seats) :
    (scene.session.marks e seat.streamer.stream).released = true :=
  h.closing.released (h.closing_eq_done hresting hclosed) hup (h.name_mem hseat)

/-- The release of a stream is claimed once it has come to its end or it or the execution is
closed. -/
theorem released_eq (h : scene.Sound link e id said lost) (hresting : scene.Resting)
    (hup : scene.session.isUp link.watched = true) (hseat : seat ∈ scene.seats) :
    (scene.session.marks e seat.streamer.stream).released =
      (seat.streamer.lastSeen || (scene.session.marks e seat.streamer.stream).closed ||
        scene.session.isExecutionClosed e) := by
  cases hclosed : scene.session.isExecutionClosed e with
  | false => rw [h.settled hup seat hseat, Bool.or_false, Bool.or_comm]
  | true => rw [h.released_of_closed hresting hup hclosed hseat, Bool.or_true]

/-- If no claim was made in vain, what is claimed has been sent. -/
theorem said_eq (h : scene.Sound link e id said []) (hresting : scene.Resting)
    (hup : scene.session.isUp link.watched = true) (hseat : seat ∈ scene.seats)
    (hreleasable : Releasable scene.session.settings id seat.name) :
    said.countP (·.isRelease id seat.streamer.stream) =
      if (scene.session.marks e seat.streamer.stream).released then 1 else 0 := by
  have hle := h.tally.said_le (h.name_mem hseat)
  have hge := h.tally.exact hup _ (h.name_mem hseat) hreleasable
  rw [hresting.unsent_eq_nil, releases, List.countP_nil, List.count_nil] at hge
  refine Nat.le_antisymm hle ?_
  split
  · next hreleased => exact hge hreleased
  · exact Nat.zero_le _

theorem said_ended_eq (h : scene.Sound link e id said lost) (hresting : scene.Resting)
    (hup : scene.session.isUp link.watched = true)
    (hendable : Endable scene.session.settings id) :
    said.countP (·.isEnd id) = scene.closing.ends := by
  have hge := h.tally.ended hup hendable
  rw [hresting.unsent_eq_nil, endings, List.countP_nil] at hge
  exact Nat.le_antisymm h.tally.said_ended_le hge

end Scene.Sound

/-- While things are in order and no operation is under way, it is known what has been sent. -/
theorem Scene.Orderly.discharged (h : scene.Orderly link e id said) (hresting : scene.Resting)
    (hup : scene.session.isUp link.watched = true)
    (hendable : Endable scene.session.settings id) : scene.Discharged link e id said := by
  obtain ⟨lost, hsound, hlost⟩ := h.sound
  obtain rfl := hlost hup
  have hended := hsound.said_ended_eq hresting hup hendable
  refine ⟨hsound.tally.frames, hsound.distinct, fun seat hseat => ?_,
    fun seat hseat hreleasable => ?_, fun hopen => ?_, fun hclosed => ?_,
    fun hclosed seat hseat hlast call rounds => ?_,
    fun hclosed => ⟨fun start count => exec_requestBatch_of_closed hclosed start count,
      fun stream reference => by rw [exec_requestChunk, if_pos hclosed]⟩⟩
  · refine (hsound.tally.said_le (hsound.name_mem hseat)).trans ?_
    split <;> omega
  · rw [hsound.said_eq hresting hup hseat hreleasable, hsound.released_eq hresting hup hseat]
  · have hclosing : scene.closing = .notBegun :=
      Closing.eq_notBegun (hsound.closing.begun.symm.trans hopen)
    rw [hended, hclosing, Closing.ends]
  · have hclosing := hsound.closing_eq_done hresting hclosed
    rw [hclosing] at hended
    exact ⟨h.sealed hup hendable (by rw [hclosing]; rfl) (by rw [hclosing]; rfl), hended⟩
  · refine Streamer.exec_retrieve_of_closed ?_ call rounds
    have hsame := hsound.settled hup seat hseat
    rw [hsound.released_of_closed hresting hup hclosed hseat, hlast, Bool.or_false] at hsame
    exact hsame.symm

/-- **Each stream is released once.** On a session that stays up, whatever operations are completed,
what has been sent for an execution is what its streamers and its own close have come to. And
whatever turns the tasks take, also while others are under way, no stream is released twice and the
execution is not ended twice. -/
theorem released_once {s : Session σ} (hsteady : link.Steady)
    (hvalid : s.settings.validate = .ok ())
    (hbegun : s.executions[e]? = some (Execution.start id)) :
    (∀ (rounds : Nat) (deeds : List Deed), s.lastStream.toNat + deeds.length < 2 ^ 64 →
      let scene := (Scene.start s.watch).performAll link.watched e rounds deeds
      scene.session.isUp link.watched = true → ∃ said, scene.Discharged link e id said) ∧
    ∀ turns : List Turn, s.lastStream.toNat + turns.length < 2 ^ 64 →
      let scene := (Scene.start s.watch).run link.watched e turns
      ∃ said, Said s.settings said scene.session.link.2 ∧
        (∀ seat ∈ scene.seats, said.countP (·.isRelease id seat.streamer.stream) ≤ 1) ∧
        said.countP (·.isEnd id) ≤ 1 := by
  refine ⟨fun rounds deeds hfew => ?_, fun turns hfew => ?_⟩
  · intro scene hup
    have hstart : (Scene.start s.watch).Resting :=
      ⟨rfl, fun _ hseat => absurd hseat List.not_mem_nil⟩
    obtain ⟨said, horderly, hresting, hlater⟩ :=
      (Scene.Orderly.start link hbegun).performAll hsteady hstart rounds deeds hfew
    have hsettings : scene.session.settings = s.settings := hlater.settings
    refine ⟨_, horderly.discharged hresting hup ?_⟩
    rw [hsettings]
    exact endable_of_validate hvalid id
  · intro scene
    obtain ⟨said, hsound, hlater⟩ :=
      (Scene.Sound.start link hbegun).run hsteady turns hfew
    have hsettings : scene.session.settings = s.settings := hlater.settings
    refine ⟨_, hsettings ▸ hsound.tally.frames, fun seat hseat => ?_,
      hsound.tally.said_ended_le.trans (Closing.Sound.ends_le _)⟩
    refine (hsound.tally.said_le (hsound.name_mem hseat)).trans ?_
    split <;> omega

/-- The last chunk of the first stream, and the answers to the calls behind it. -/
def chunkReplies : List Message :=
  [.reply ⟨1, .ok (.message (.chunk ⟨[7, 8], true⟩))⟩, .reply (Calls.nullReply 2),
    .reply (Calls.nullReply 3), .reply (Calls.nullReply 4)]

/-- Two streams are opened and the first is read to its end; then the execution is closed twice, and
the second stream is read and closed. -/
def workday : List Deed :=
  [.openLob ⟨"a", .blob, none⟩, .openLob ⟨"b", .blob, none⟩, .read 0 .rest, .closeExecution,
    .closeExecution, .read 1 .rest, .close 1]

def worked : Scene (Inflow × List Bytes) :=
  (Scene.start (answeredBy chunkReplies).watch).performAll scriptedLink.watched 0 3 workday

/-- Both streams are released once, and the call that ends the execution is the last one. -/
theorem released_once_workday : ∃ said, Said Settings.standard said worked.session.link.2 ∧
    said.countP (·.isRelease 1 1) = 1 ∧ said.countP (·.isRelease 1 2) = 1 ∧
    said.countP (·.isEnd 1) = 1 ∧ EndsWith 1 said := by
  have hnames : worked.seats.map Seat.name =
      [(1, ⟨"a", .blob, none⟩), (2, ⟨"b", .blob, none⟩)] := by
    decide +kernel
  have hclosed : worked.session.isExecutionClosed 0 = true := by decide +kernel
  have hsettings : worked.session.settings = Settings.standard := by decide +kernel
  have hsteady : scriptedLink.Steady := fun _ _ _ => rfl
  have hbegun : (answeredBy chunkReplies).executions[0]? = some (Execution.start 1) := by decide
  obtain ⟨said, hsaid⟩ :=
    (released_once hsteady (by decide) hbegun).1 3 workday (by decide) (by decide +kernel)
  have hdischarged : worked.Discharged scriptedLink 0 1 said := hsaid
  have hcount : ∀ name ∈ worked.seats.map Seat.name, Releasable Settings.standard 1 name →
      said.countP (·.isRelease 1 name.1) = 1 := by
    intro name hname hreleasable
    obtain ⟨seat, hseat, rfl⟩ := List.mem_map.1 hname
    have hreleased := hdischarged.released seat hseat (hsettings ▸ hreleasable)
    rwa [hclosed, Bool.or_true, if_pos rfl] at hreleased
  rw [hnames] at hcount
  obtain ⟨hlast, hended⟩ := hdischarged.ended hclosed
  refine ⟨said, hsettings ▸ hdischarged.frames, ?_, ?_, hended, hlast⟩
  · exact hcount (1, ⟨"a", .blob, none⟩) (by simp) (releasable_of_room (by decide) (by decide))
  · exact hcount (2, ⟨"b", .blob, none⟩) (by simp) (releasable_of_room (by decide) (by decide))

/-! ## Where closing falls short -/

/-- A session with an execution that has just begun and with little room for what is sent, over a
server that will answer the second call. -/
def tightSession : Session Inflow :=
  { answeredBy [.reply (Calls.nullReply 2)] with
    settings := { Settings.standard with maxObjectSize := 1024 } }

/-- A reference with a text that leaves too little room for the call that releases its stream. -/
def longReference : LobReference :=
  ⟨String.ofList (List.replicate 1000 'a'), .blob, none⟩

theorem length_longReference : (Utf8.encode longReference.id).length = 1000 := by
  have hletters : ∀ n, ((List.replicate n 'a').flatMap Utf8.encodeChar).length = n := by
    intro n
    induction n with
    | zero => rfl
    | succ n ih =>
      have hletter : (Utf8.encodeChar 'a').length = 1 := by decide
      rw [List.replicate_succ, List.flatMap_cons, List.length_append, ih, hletter, Nat.add_comm]
  have hlist : longReference.id.toList = List.replicate 1000 'a' := String.toList_ofList
  rw [Utf8.encode, hlist]
  exact hletters 1000

/-- The scene once the stream is open. -/
def tightScene : Scene (Inflow × List Bytes) :=
  (Scene.start tightSession.watch).perform scriptedLink.watched 0 1 (.openLob longReference)

/-- The session once the close has claimed the release of the stream. -/
def tightClaimed : Session (Inflow × List Bytes) :=
  (tightScene.session.withClosed 0).setMarks 0 1 ⟨true, true⟩

theorem not_encodes_tightClaimed (key : UInt64) : ¬ Invocation.Encodes tightClaimed.settings
    ⟨key, .dqp, "closeLobChunkStream", releaseArgs 1 1 longReference⟩ := by
  intro hencodes
  have hroom := length_of_encodes hencodes
  have hmax : tightClaimed.settings.maxObjectSize = 1024 := by decide +kernel
  rw [length_longReference, hmax] at hroom
  omega

/-- The close gives the release up and goes on to the end of the execution. -/
theorem session_tightScene_closed :
    (tightScene.perform scriptedLink.watched 0 1 .closeExecution).session =
      (exec (endAfter scriptedLink.watched 0 1 [])
        (tightClaimed.givenUp "closeLobChunkStream")).2 := by
  have hexecution : tightScene.session.executions[0]? =
      some ⟨1, false, [⟨1, longReference, ⟨false, false⟩⟩]⟩ := by
    decide +kernel
  have hunreleased : Execution.unreleased ⟨1, false, [⟨1, longReference, ⟨false, false⟩⟩]⟩ =
      [⟨1, longReference, ⟨false, false⟩⟩] := rfl
  have hup : tightScene.session.isClosed = false := by decide +kernel
  have hfree : ((tightScene.session.withClosed 0).marks 0 1).released = false := by
    decide +kernel
  have hid : tightClaimed.executionId 0 = 1 := by decide +kernel
  have hstillUp : tightClaimed.isClosed = false := by decide +kernel
  rw [Scene.session_perform_closeExecution, exec_closeExecution_of_open hexecution rfl, hup,
    hunreleased, if_neg (by simp), exec_endAfter_cons]
  dsimp only
  rw [hfree, if_neg (by simp), ← tightClaimed, streamArgs, hid, ← releaseArgs,
    exec_call_of_not_encodes hstillUp (not_encodes_tightClaimed _)]

/-- **The close of an execution does not see to everything**, on a session that is up: a stream that
has no characters does not say that it is closed when one is read, and a stream is not released if
its reference leaves no room for the call. -/
theorem closing_falls_short :
    (let scene := (Scene.start (answeredBy twoReplies).watch).performAll scriptedLink.watched 0 1
      [.openLob ⟨"a", .blob, none⟩, .closeExecution]
    scene.session.isUp scriptedLink.watched = true ∧ scene.session.isExecutionClosed 0 = true ∧
      scene.seats.map (fun seat => (seat.streamer.lastSeen,
        (Attempt.exec (Streamer.Retrieval.char.perform (chunkSource scriptedLink.watched 0) 1)
          ⟨seat.streamer, scene.session⟩).1)) =
        [(false, .error (.fault (.conversion (.notCharacters .blob))))]) ∧
    (let scene := (Scene.start tightSession.watch).performAll scriptedLink.watched 0 1
      [.openLob longReference, .closeExecution]
    tightSession.settings.validate = .ok () ∧ scene.session.isUp scriptedLink.watched = true ∧
      scene.session.isExecutionClosed 0 = true ∧
      scene.seats.map Seat.name = [(1, longReference)] ∧
      scene.session.link.2.map (fun frame => (calledBy frame).map fun call =>
        (call.isRelease 1 1, call.isEnd 1)) = [some (false, true)]) := by
  refine ⟨by decide +kernel, ?_⟩
  have hscene : (Scene.start tightSession.watch).performAll scriptedLink.watched 0 1
      [.openLob longReference, .closeExecution] =
        tightScene.perform scriptedLink.watched 0 1 .closeExecution := rfl
  dsimp only
  rw [hscene, session_tightScene_closed, Scene.seats_perform_closeExecution]
  decide +kernel

end QueryClient.Session
