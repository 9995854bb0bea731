import QueryClient.Proofs.Session.Releases

/-!
# The turn of a streamer

A turn of a streamer leaves its calls as they are, or makes one ready, or sends the one that is
ready, or claims the release of its stream. What a claim comes to depends on the execution and the
session, and on whether the release is free.
-/

namespace QueryClient.Session

variable {σ : Type}

namespace Seat

/-- The number and the reference of the stream that is read. -/
def name (seat : Seat) : UInt64 × LobReference :=
  (seat.streamer.stream, seat.streamer.reference)

end Seat

/-- What comes of a pause: the call is sent, or given up on a session that is down, or nothing is
sent. -/
inductive Stepped (link : Link σ) (s : Session (σ × List Bytes)) (pause : Pause) :
    Option Pause × Session (σ × List Bytes) → Prop
  | still {next : Option Pause} {t : Session (σ × List Bytes)}
      (unsent : next.elim [] Pause.unsent = pause.unsent) (follows : Follows link [] s t) :
      Stepped link s pause (next, t)
  | sent {next : Option Pause} {t : Session (σ × List Bytes)} {call : Invocation}
      (before : pause.unsent = [call]) (after : next.elim [] Pause.unsent = [])
      (follows : Follows link [call] s t) : Stepped link s pause (next, t)
  | refused {next : Option Pause} {t : Session (σ × List Bytes)} {call : Invocation}
      (before : pause.unsent = [call]) (after : next.elim [] Pause.unsent = [])
      (follows : Follows link [] s t) (down : s.isUp link.watched = false) :
      Stepped link s pause (next, t)

section Stepped

variable {link : Link σ} {s : Session (σ × List Bytes)} {pause : Pause}

theorem stepped_resume (hencodes : ∀ call ∈ pause.unsent, call.Encodes s.settings) :
    Stepped link s pause (pause.resume link.watched s) := by
  cases pause with
  | sending call =>
    have hposted := posted_post link (hencodes call (List.mem_singleton.2 rfl))
    rw [Pause.resume]
    generalize exec (post link.watched call) s = result at hposted ⊢
    cases hposted with
    | sent hfollows => exact .sent rfl rfl hfollows
    | refused hfollows hdown => exact .refused rfl rfl hfollows hdown
  | waiting handle =>
    rw [Pause.resume]
    cases s.calls.outcome? handle.key with
    | none => exact .still rfl (.refl s)
    | some outcome => exact .still rfl (.forget handle.key)

theorem stepped_timeOut : Stepped link s pause (pause.timeOut s) := by
  cases pause with
  | sending call => exact .still rfl (.refl s)
  | waiting handle => exact .still rfl (.abandon handle)

/-- Nothing new is ready behind a pause. -/
theorem Stepped.subset {next : Option Pause} {t : Session (σ × List Bytes)}
    (h : Stepped link s pause (next, t)) : next.elim [] Pause.unsent ⊆ pause.unsent := by
  cases h with
  | still hunsent _ => simp [hunsent]
  | sent _ hafter _ => simp [hafter]
  | refused _ hafter _ _ => simp [hafter]

end Stepped

/-- What a turn of a streamer comes to. -/
inductive Acted (link : Link σ) (e : Nat) (s : Session (σ × List Bytes)) (seat : Seat) :
    Seat × Session (σ × List Bytes) → Prop
  /-- Nothing is made ready or sent. -/
  | still {next : Seat} {t : Session (σ × List Bytes)} (unsent : next.unsent = seat.unsent)
      (seen : next.streamer.lastSeen = seat.streamer.lastSeen) (follows : Follows link [] s t) :
      Acted link e s seat (next, t)
  /-- A chunk is asked for. -/
  | asked {next : Seat} {t : Session (σ × List Bytes)} {call : Invocation}
      (before : seat.unsent = []) (after : next.unsent = [call])
      (seen : next.streamer.lastSeen = seat.streamer.lastSeen)
      (opened : s.isExecutionClosed e = false) (method : call.method = "requestNextLobChunk")
      (encodes : call.Encodes s.settings) (follows : Follows link [] s t) :
      Acted link e s seat (next, t)
  | sent {next : Seat} {t : Session (σ × List Bytes)} {call : Invocation}
      (before : seat.unsent = [call]) (after : next.unsent = [])
      (seen : next.streamer.lastSeen = seat.streamer.lastSeen) (follows : Follows link [call] s t) :
      Acted link e s seat (next, t)
  | refused {next : Seat} {t : Session (σ × List Bytes)} {call : Invocation}
      (before : seat.unsent = [call]) (after : next.unsent = [])
      (seen : next.streamer.lastSeen = seat.streamer.lastSeen) (follows : Follows link [] s t)
      (down : s.isUp link.watched = false) : Acted link e s seat (next, t)
  /-- The release has been claimed before. -/
  | kept {next : Seat} {t : Session (σ × List Bytes)} {m : Lob.Marks}
      (before : seat.unsent = []) (after : next.unsent = [])
      (claimed : (s.marks e seat.streamer.stream).released = true) (released : m.released = true)
      (settled : m.closed = true ∨ next.streamer.lastSeen = true)
      (follows : Follows link [] (s.setMarks e seat.streamer.stream m) t) :
      Acted link e s seat (next, t)
  /-- The release is claimed, and the execution has been closed. -/
  | lapsed {next : Seat} {t : Session (σ × List Bytes)} {m : Lob.Marks}
      (before : seat.unsent = []) (after : next.unsent = [])
      (free : (s.marks e seat.streamer.stream).released = false) (released : m.released = true)
      (settled : m.closed = true ∨ next.streamer.lastSeen = true)
      (closed : s.isExecutionClosed e = true)
      (follows : Follows link [] (s.setMarks e seat.streamer.stream m) t) :
      Acted link e s seat (next, t)
  /-- The release is claimed and made ready. -/
  | claimed {next : Seat} {t : Session (σ × List Bytes)} {m : Lob.Marks} {call : Invocation}
      (before : seat.unsent = []) (after : next.unsent = [call])
      (free : (s.marks e seat.streamer.stream).released = false) (released : m.released = true)
      (settled : m.closed = true ∨ next.streamer.lastSeen = true)
      (opened : s.isExecutionClosed e = false) (encodes : call.Encodes s.settings)
      (service : call.service = .dqp) (method : call.method = "closeLobChunkStream")
      (args : call.args =
        releaseArgs (s.executionId e) seat.streamer.stream seat.streamer.reference)
      (follows : Follows link [] (s.setMarks e seat.streamer.stream m) t) :
      Acted link e s seat (next, t)
  /-- The release is claimed and cannot be made ready. -/
  | forgone {next : Seat} {t : Session (σ × List Bytes)} {m : Lob.Marks}
      (before : seat.unsent = []) (after : next.unsent = [])
      (free : (s.marks e seat.streamer.stream).released = false) (released : m.released = true)
      (settled : m.closed = true ∨ next.streamer.lastSeen = true)
      (opened : s.isExecutionClosed e = false)
      (why : s.isUp link.watched = true → ¬ Releasable s.settings (s.executionId e) seat.name)
      (follows : Follows link [] (s.setMarks e seat.streamer.stream m) t) :
      Acted link e s seat (next, t)

section Claim

variable {link : Link σ} {e : Nat} {said : List Invocation} {s t : Session (σ × List Bytes)}
  {stream : UInt64} {m m' : Lob.Marks}

variable (e stream m) in
theorem Follows.setMarks (h : Follows link said s t) :
    Follows link said (s.setMarks e stream m) (t.setMarks e stream m) :=
  { h with
    executions := by
      change t.executions.modify e _ = s.executions.modify e _
      rw [h.executions] }

theorem setMarks_setMarks :
    (s.setMarks e stream m).setMarks e stream m' = s.setMarks e stream m' := by
  have hmap : ∀ streams : List LobStream,
      (streams.map (remarked stream m)).map (remarked stream m') =
        streams.map (remarked stream m') := by
    intro streams
    rw [List.map_map]
    refine List.map_congr_left fun opened _ => ?_
    by_cases h : opened.id = stream <;> simp [remarked, h]
  unfold Session.setMarks changeExecution
  simp only [List.modify_modify_eq]
  congr 2
  funext execution
  simp only [Function.comp_apply]
  congr 1
  exact hmap execution.streams

/-- What comes of the release that a streamer has claimed. -/
theorem acted_release {seat : Seat} {streamer : Streamer Handle}
    {s claimed : Session (σ × List Bytes)}
    (hname : (streamer.stream, streamer.reference) = seat.name) (hidle : seat.unsent = [])
    (hfree : (s.marks e seat.streamer.stream).released = false) (hm : m.released = true)
    (hsettled : m.closed = true ∨ streamer.lastSeen = true)
    (hfollows : Follows link [] (s.setMarks e seat.streamer.stream m) claimed)
    (hup : claimed.isUp link.watched = s.isUp link.watched) :
    Acted link e s seat (Seat.release e streamer claimed) := by
  obtain ⟨hstream, hreference⟩ := Prod.mk.inj hname
  have hexecution : claimed.isExecutionClosed e = s.isExecutionClosed e :=
    (isExecutionClosed_congr hfollows.executions).trans isExecutionClosed_setMarks
  have hid : claimed.executionId e = s.executionId e :=
    (executionId_congr hfollows.executions).trans executionId_setMarks
  have hsettings : claimed.settings = s.settings := hfollows.settings
  have hargs : streamArgs e streamer.stream streamer.reference claimed =
      releaseArgs (s.executionId e) seat.streamer.stream seat.streamer.reference := by
    rw [streamArgs, hid, hstream, hreference, releaseArgs]
  unfold Seat.release
  rw [hexecution, hargs]
  cases hopen : s.isExecutionClosed e with
  | true => exact .lapsed hidle rfl hfree hm hsettled hopen hfollows
  | false =>
    cases hlost : claimed.isClosed with
    | true =>
      refine .forgone hidle rfl hfree hm hsettled hopen (fun hs => ?_) hfollows
      rw [← hup, isUp, hlost] at hs
      cases hs
    | false =>
      have hreadied := readied_ready link .dqp "closeLobChunkStream"
        (releaseArgs (s.executionId e) seat.streamer.stream seat.streamer.reference) claimed
      rw [if_pos (by simp)]
      generalize exec (ready .dqp "closeLobChunkStream" (releaseArgs (s.executionId e)
        seat.streamer.stream seat.streamer.reference)) claimed = result at hreadied ⊢
      cases hreadied with
      | ready hservice hmethod hsame hencodes hfollows' =>
        rw [hsettings] at hencodes
        exact .claimed hidle rfl hfree hm hsettled hopen hencodes hservice hmethod hsame
          (hfollows.trans hfollows')
      | refused hfollows' hwhy =>
        refine .forgone hidle rfl hfree hm hsettled hopen (fun hs => ?_)
          (hfollows.trans hfollows')
        rw [hsettings, hup, hs] at hwhy
        exact hwhy.resolve_left (by simp)

/-- What comes of a claim, wherever the streamer has got to. -/
theorem acted_claim {seat : Seat} {streamer : Streamer Handle} {s s₁ : Session (σ × List Bytes)}
    (hname : (streamer.stream, streamer.reference) = seat.name) (hidle : seat.unsent = [])
    (hfollows : ∀ m, Follows link [] (s.setMarks e seat.streamer.stream m)
      (s₁.setMarks e seat.streamer.stream m))
    (hfree : (s₁.marks e seat.streamer.stream).released =
      (s.marks e seat.streamer.stream).released)
    (hup : s₁.isUp link.watched = s.isUp link.watched)
    (hsettled : (s₁.marks e seat.streamer.stream).closed = true ∨ streamer.lastSeen = true) :
    Acted link e s seat (Seat.claim e streamer s₁) := by
  have hstream : streamer.stream = seat.streamer.stream := congrArg Prod.fst hname
  unfold Seat.claim
  dsimp only
  rw [hstream, hfree]
  generalize hm : ({ s₁.marks e seat.streamer.stream with released := true } : Lob.Marks) = m
  have hreleased : m.released = true := by rw [← hm]
  have hclosed : m.closed = true ∨ streamer.lastSeen = true := by
    rw [← hm]
    exact hsettled
  cases hmarks : (s.marks e seat.streamer.stream).released with
  | true =>
    rw [if_pos rfl]
    exact .kept hidle rfl hmarks hreleased hclosed (hfollows m)
  | false =>
    rw [if_neg (by simp)]
    exact acted_release hname hidle hmarks hreleased hclosed (hfollows m) hup

end Claim

/-! ## The turns -/

section Turns

variable {link : Link σ} {e : Nat} {streamer : Streamer Handle} {s : Session (σ × List Bytes)}

theorem isUp_abandon (handle : Handle) :
    (s.abandon handle).isUp link.watched = s.isUp link.watched := by
  unfold abandon
  split <;> rfl

theorem acted_beginRead :
    Acted link e s ⟨streamer, .idle⟩ (Seat.beginRead e streamer s) := by
  have hstill : Acted link e s ⟨streamer, .idle⟩ (⟨streamer, .idle⟩, s) :=
    .still rfl rfl (.refl s)
  unfold Seat.beginRead
  split
  · exact hstill
  · cases streamer.flight with
    | some handle => exact .still (by cases handle.finished <;> rfl) rfl (.refl s)
    | none =>
      cases hopen : s.isExecutionClosed e with
      | true => exact hstill
      | false =>
        have hreadied := readied_ready link .dqp "requestNextLobChunk"
          (streamArgs e streamer.stream streamer.reference s) s
        dsimp only
        rw [if_neg (by simp)]
        generalize exec (ready .dqp "requestNextLobChunk"
          (streamArgs e streamer.stream streamer.reference s)) s = result at hreadied ⊢
        cases hreadied with
        | ready _ hmethod _ hencodes hfollows =>
          exact .asked rfl rfl rfl hopen hmethod hencodes hfollows
        | refused hfollows _ => exact .still rfl rfl hfollows

theorem acted_takeChunk :
    Acted link e s ⟨streamer, .expecting⟩ (Seat.takeChunk e streamer s) := by
  unfold Seat.takeChunk
  cases streamer.flight with
  | none => exact .still rfl rfl (.refl s)
  | some handle =>
    dsimp only
    cases s.calls.outcome? handle.key with
    | none => exact .still rfl rfl (.refl s)
    | some outcome =>
      dsimp only
      cases conclude outcome >>= Value.chunk with
      | error fault => exact .still rfl rfl (.forget handle.key)
      | ok chunk =>
        by_cases hlast : chunk.isLast = true
        · simp only [hlast, if_true]
          exact acted_claim rfl rfl (fun m => (Follows.forget handle.key).setMarks e _ m) rfl rfl
            (.inr rfl)
        · simp only [hlast]
          exact .still rfl rfl (.forget handle.key)

theorem follows_abandonFlight : Follows link [] s (Seat.abandonFlight streamer s) := by
  unfold Seat.abandonFlight
  cases streamer.flight with
  | none => exact .refl s
  | some handle => exact .abandon handle

theorem isUp_abandonFlight :
    (Seat.abandonFlight streamer s).isUp link.watched = s.isUp link.watched := by
  unfold Seat.abandonFlight
  cases streamer.flight with
  | none => rfl
  | some handle => exact isUp_abandon handle

theorem acted_beginClose :
    Acted link e s ⟨streamer, .idle⟩ (Seat.beginClose e streamer s) := by
  unfold Seat.beginClose
  dsimp only
  by_cases hclosed : (s.marks e streamer.stream).closed = true
  · rw [if_pos hclosed]
    exact .still rfl rfl (.refl s)
  · rw [if_neg hclosed]
    have hknows : s.Knows e streamer.stream := by
      by_contra hunknown
      rw [marks_of_not_knows hunknown] at hclosed
      exact hclosed rfl
    generalize hm : ({ s.marks e streamer.stream with closed := true } : Lob.Marks) = m
    have hfollows : Follows link [] (s.setMarks e streamer.stream m)
        (Seat.abandonFlight streamer (s.setMarks e streamer.stream m)) := follows_abandonFlight
    have hmarks : (Seat.abandonFlight streamer (s.setMarks e streamer.stream m)).marks e
        streamer.stream = m :=
      (marks_congr hfollows.executions _).trans (marks_setMarks_self hknows)
    refine acted_claim rfl rfl (fun m' => ?_) ?_ isUp_abandonFlight (.inl ?_)
    · have hmarked := hfollows.setMarks e streamer.stream m'
      rwa [setMarks_setMarks] at hmarked
    · rw [hmarks, ← hm]
    · rw [hmarks, ← hm]

/-- A pause of a release is a pause of its streamer. -/
theorem acted_of_stepped {pause : Pause} {next : Option Pause} {t : Session (σ × List Bytes)}
    (h : Stepped link s pause (next, t)) :
    Acted link e s ⟨streamer, .releasing pause⟩ (⟨streamer, next.elim .idle .releasing⟩, t) := by
  have hunsent : Seat.unsent ⟨streamer, next.elim .idle .releasing⟩ =
      next.elim [] Pause.unsent := by
    cases next <;> rfl
  cases h with
  | still hsame hfollows => exact .still (hunsent.trans hsame) rfl hfollows
  | sent hbefore hafter hfollows => exact .sent hbefore (hunsent.trans hafter) rfl hfollows
  | refused hbefore hafter hfollows hdown =>
    exact .refused hbefore (hunsent.trans hafter) rfl hfollows hdown

/-- **What the turn of a streamer comes to**, whatever it is. -/
theorem acted_act (link : Link σ) (e : Nat) (s : Session (σ × List Bytes)) (move : Seat.Move)
    (seat : Seat)
    (hencodes : ∀ call ∈ seat.unsent, call.Encodes s.settings) :
    Acted link e s seat (seat.act link.watched e move s) := by
  obtain ⟨streamer, stage⟩ := seat
  have hstill : ∀ stage, Acted link e s ⟨streamer, stage⟩ (⟨streamer, stage⟩, s) :=
    fun stage => .still rfl rfl (.refl s)
  cases stage with
  | idle =>
    cases move with
    | read => exact acted_beginRead
    | deliver n => exact .still rfl rfl (.refl s)
    | close => exact acted_beginClose
    | drop => exact .still rfl rfl follows_abandonFlight
    | resume => exact hstill _
    | timeOut => exact hstill _
  | asking call =>
    cases move with
    | resume =>
      have hposted := posted_post link (hencodes call (List.mem_singleton.2 rfl))
      rw [Seat.act]
      generalize exec (post link.watched call) s = result at hposted ⊢
      cases hposted with
      | sent hfollows => exact .sent rfl rfl rfl hfollows
      | refused hfollows hdown => exact .refused rfl rfl rfl hfollows hdown
    | _ => exact hstill _
  | expecting =>
    cases move with
    | resume => exact acted_takeChunk
    | timeOut => exact .still rfl rfl (.refl s)
    | _ => exact hstill _
  | releasing pause =>
    cases move with
    | resume => exact acted_of_stepped (stepped_resume hencodes)
    | timeOut => exact acted_of_stepped stepped_timeOut
    | _ => exact hstill _
  | gone => cases move <;> exact hstill _

@[simp] theorem streamer_claim (streamer : Streamer Handle) (s : Session (σ × List Bytes)) :
    (Seat.claim e streamer s).1.streamer = streamer := by
  unfold Seat.claim Seat.release
  dsimp only
  split
  · rfl
  · split
    · split <;> rfl
    · rfl

theorem name_beginRead :
    (Seat.beginRead e streamer s).1.name = (⟨streamer, .idle⟩ : Seat).name := by
  unfold Seat.beginRead
  split
  · rfl
  · split
    · rfl
    · split
      · rfl
      · split <;> rfl

theorem name_takeChunk :
    (Seat.takeChunk e streamer s).1.name = (⟨streamer, .idle⟩ : Seat).name := by
  unfold Seat.takeChunk
  split
  · rfl
  · split
    · rfl
    · dsimp only
      split
      · rfl
      · split
        · rw [Seat.name, streamer_claim]
          rfl
        · rfl

theorem name_beginClose :
    (Seat.beginClose e streamer s).1.name = (⟨streamer, .idle⟩ : Seat).name := by
  unfold Seat.beginClose
  dsimp only
  split
  · rfl
  · rw [Seat.name, streamer_claim]
    rfl

/-- A streamer reads one stream. -/
theorem name_act (link : Link σ) (e : Nat) (s : Session (σ × List Bytes)) (move : Seat.Move)
    (seat : Seat) :
    (seat.act link.watched e move s).1.name = seat.name := by
  obtain ⟨streamer, stage⟩ := seat
  cases stage with
  | idle =>
    cases move with
    | read => exact name_beginRead
    | close => exact name_beginClose
    | _ => rfl
  | asking call =>
    cases move with
    | resume =>
      rw [Seat.act]
      split <;> rfl
    | _ => rfl
  | expecting =>
    cases move with
    | resume => exact name_takeChunk
    | _ => rfl
  | releasing pause => cases move <;> rfl
  | gone => cases move <;> rfl

end Turns

/-! ## What others see of it -/

/-- What a turn leaves as it is for everybody but one stream. -/
structure Beside (link : Link σ) (e : Nat) (stream : UInt64) (s t : Session (σ × List Bytes)) :
    Prop where
  settings : t.settings = s.settings
  names : t.names e = s.names e
  closed : t.isExecutionClosed e = s.isExecutionClosed e
  lastStream : t.lastStream = s.lastStream
  others : ∀ other, other ≠ stream → t.marks e other = s.marks e other
  up : t.isUp link.watched = true → s.isUp link.watched = true

/-- The streams of which the release is claimed in vain between two sessions. -/
def lapses (e : Nat) (stream : UInt64) (s t : Session σ) : List UInt64 :=
  if s.isExecutionClosed e && !(s.marks e stream).released && (t.marks e stream).released then
    [stream]
  else []

namespace Acted

variable {link : Link σ} {e : Nat} {id : Int64} {said others : List Invocation} {lost : List UInt64}
  {ends : Nat} {s t : Session (σ × List Bytes)} {seat next : Seat}

/-- The marks of the stream stay as they are, or its release is claimed. -/
theorem cases_marks (h : Acted link e s seat (next, t)) :
    (∃ more, Follows link more s t ∧ next.streamer.lastSeen = seat.streamer.lastSeen) ∨
      ∃ m : Lob.Marks, m.released = true ∧ (m.closed = true ∨ next.streamer.lastSeen = true) ∧
        Follows link [] (s.setMarks e seat.streamer.stream m) t := by
  cases h with
  | still _ hseen hfollows => exact .inl ⟨_, hfollows, hseen⟩
  | asked _ _ hseen _ _ _ hfollows => exact .inl ⟨_, hfollows, hseen⟩
  | sent _ _ hseen hfollows => exact .inl ⟨_, hfollows, hseen⟩
  | refused _ _ hseen hfollows _ => exact .inl ⟨_, hfollows, hseen⟩
  | kept _ _ _ hm hsettled hfollows => exact .inr ⟨_, hm, hsettled, hfollows⟩
  | lapsed _ _ _ hm hsettled _ hfollows => exact .inr ⟨_, hm, hsettled, hfollows⟩
  | claimed _ _ _ hm hsettled _ _ _ _ _ hfollows => exact .inr ⟨_, hm, hsettled, hfollows⟩
  | forgone _ _ _ hm hsettled _ _ hfollows => exact .inr ⟨_, hm, hsettled, hfollows⟩

theorem beside (h : Acted link e s seat (next, t)) : Beside link e seat.streamer.stream s t := by
  rcases h.cases_marks with ⟨more, hfollows, -⟩ | ⟨m, -, -, hfollows⟩
  · exact ⟨hfollows.settings, names_congr hfollows.executions,
      isExecutionClosed_congr hfollows.executions, hfollows.lastStream,
      fun other _ => marks_congr hfollows.executions other, hfollows.up⟩
  · exact ⟨hfollows.settings, (names_congr hfollows.executions).trans names_setMarks,
      (isExecutionClosed_congr hfollows.executions).trans isExecutionClosed_setMarks,
      hfollows.lastStream, fun other hother =>
        (marks_congr hfollows.executions other).trans (marks_setMarks_of_ne hother), hfollows.up⟩

/-- The release of a stream is claimed exactly if it is closed or has come to its end. -/
theorem settled (h : Acted link e s seat (next, t)) (hknows : s.Knows e seat.streamer.stream)
    (hs : (s.marks e seat.streamer.stream).released =
      ((s.marks e seat.streamer.stream).closed || seat.streamer.lastSeen)) :
    (t.marks e seat.streamer.stream).released =
      ((t.marks e seat.streamer.stream).closed || next.streamer.lastSeen) := by
  rcases h.cases_marks with ⟨more, hfollows, hseen⟩ | ⟨m, hm, hsettled, hfollows⟩
  · rw [marks_congr hfollows.executions, hseen, hs]
  · rw [marks_congr hfollows.executions, marks_setMarks_self hknows, hm, eq_comm, Bool.or_eq_true]
    exact hsettled

/-- A turn takes no claim back. -/
theorem released (h : Acted link e s seat (next, t)) (hknows : s.Knows e seat.streamer.stream)
    {stream : UInt64} (hs : (s.marks e stream).released = true) :
    (t.marks e stream).released = true := by
  by_cases hstream : stream = seat.streamer.stream
  · subst hstream
    rcases h.cases_marks with ⟨_, hfollows, -⟩ | ⟨m, hm, -, hfollows⟩
    · rwa [marks_congr hfollows.executions]
    · rw [marks_congr hfollows.executions, marks_setMarks_self hknows, hm]
  · rwa [h.beside.others _ hstream]

theorem lapses_of_released {stream : UInt64}
    (h : (t.marks e stream).released = (s.marks e stream).released) : lapses e stream s t = [] := by
  unfold lapses
  rw [h]
  cases (s.marks e stream).released <;> simp

theorem lapses_of_open {stream : UInt64} (h : s.isExecutionClosed e = false) :
    lapses e stream s t = [] := by
  simp [lapses, h]

/-- A claim is made in vain only on an execution that is closed, where it could be made. -/
theorem of_lapses {stream : UInt64} (h : lapses e stream s t ≠ []) :
    s.isExecutionClosed e = true ∧ (s.marks e stream).released = false := by
  obtain ⟨hclosed, hfree, -⟩ : s.isExecutionClosed e = true ∧
      (s.marks e stream).released = false ∧ (t.marks e stream).released = true := by
    simpa [lapses] using h
  exact ⟨hclosed, hfree⟩

/-- The account goes on after the turn. -/
theorem tally (hacted : Acted link e s seat (next, t))
    (h : Tally link e id said (seat.unsent ++ others) lost ends s)
    (hname : seat.name ∈ s.names e) :
    ∃ more, (more = [] ∨ more = seat.unsent) ∧
      Tally link e id (said ++ more) (next.unsent ++ others)
        (lost ++ lapses e seat.streamer.stream s t) ends t := by
  have hknows : s.Knows e seat.streamer.stream := List.mem_map_of_mem hname
  have hsame : ∀ {more : List Invocation}, Follows link more s t →
      lapses e seat.streamer.stream s t = [] := fun hfollows =>
    lapses_of_released (congrArg Lob.Marks.released (marks_congr hfollows.executions _))
  have hmarks : ∀ {m : Lob.Marks}, Follows link [] (s.setMarks e seat.streamer.stream m) t →
      t.marks e seat.streamer.stream = m := fun hfollows =>
    (marks_congr hfollows.executions _).trans (marks_setMarks_self hknows)
  cases hacted with
  | still hunsent _ hfollows =>
    refine ⟨[], .inl rfl, ?_⟩
    rw [hsame hfollows, List.append_nil, List.append_nil, hunsent]
    exact h.follows hfollows
  | @asked _ _ call hbefore hafter _ _ hmethod hencodes hfollows =>
    refine ⟨[], .inl rfl, ?_⟩
    rw [hsame hfollows, List.append_nil, List.append_nil, hafter]
    rw [hbefore] at h
    exact (h.asked hencodes (fun stream => isRelease_of_method (by simp [hmethod]))
      (isEnd_of_method (by simp [hmethod]))).follows hfollows
  | @sent _ _ call hbefore hafter _ hfollows =>
    refine ⟨[call], .inr hbefore.symm, ?_⟩
    rw [hsame hfollows, List.append_nil, hafter]
    rw [hbefore] at h
    exact h.sent hfollows
  | refused hbefore hafter _ hfollows hdown =>
    refine ⟨[], .inl rfl, ?_⟩
    rw [hsame hfollows, List.append_nil, List.append_nil, hafter]
    rw [hbefore] at h
    exact h.refused hfollows hdown
  | @kept _ _ m hbefore hafter hclaimed hreleased _ hfollows =>
    refine ⟨[], .inl rfl, ?_⟩
    have halike : Alike link e s (s.setMarks e seat.streamer.stream m) :=
      ⟨rfl, rfl, names_setMarks, executionId_setMarks,
        released_setMarks (hreleased.trans hclaimed.symm), fun hup => hup⟩
    rw [lapses_of_released (by rw [hmarks hfollows, hreleased, hclaimed]), List.append_nil,
      List.append_nil, hafter]
    rw [hbefore] at h
    exact (h.alike halike rfl).follows hfollows
  | @lapsed _ _ m hbefore hafter hfree hreleased _ hclosed hfollows =>
    refine ⟨[], .inl rfl, ?_⟩
    have hlapses : lapses e seat.streamer.stream s t = [seat.streamer.stream] := by
      simp [lapses, hclosed, hfree, hmarks hfollows, hreleased]
    rw [hlapses, List.append_nil, hafter]
    rw [hbefore] at h
    exact (h.claim_lost hknows hfree hreleased).follows hfollows
  | @claimed _ _ m call hbefore hafter hfree hreleased _ hopen hencodes hservice hmethod hargs
      hfollows =>
    refine ⟨[], .inl rfl, ?_⟩
    rw [lapses_of_open hopen, List.append_nil, List.append_nil, hafter]
    rw [hbefore] at h
    rw [h.id_eq] at hargs
    exact (h.claim_ready hname hfree hreleased hencodes hservice hmethod hargs).follows hfollows
  | @forgone _ _ m hbefore hafter hfree hreleased _ hopen hwhy hfollows =>
    refine ⟨[], .inl rfl, ?_⟩
    rw [lapses_of_open hopen, List.append_nil, List.append_nil, hafter]
    rw [hbefore] at h
    rw [h.id_eq] at hwhy
    exact (h.claim_refused hname hfree hreleased hwhy).follows hfollows

end Acted

end QueryClient.Session
