import QueryClient.Proofs.Session.Seats

/-!
# The turns of the close

The task that closes an execution goes through the streams whose release nobody had claimed when it
began, and claims each of them unless its streamer has been faster. Whatever it passes is released.
It ends the execution behind the last stream.
-/

namespace QueryClient.Session

variable {σ : Type}

namespace Closing

/-- Whether the close has begun. -/
def begun : Closing → Bool
  | notBegun => false
  | _ => true

/-- How often the execution is ended by now. -/
def ends : Closing → Nat
  | notBegun => 0
  | releasing .. => 0
  | ending _ => 1
  | done => 1

theorem eq_notBegun {closing : Closing} (h : closing.begun = false) : closing = .notBegun := by
  cases closing with
  | notBegun => rfl
  | _ => cases h

theorem begun_advance (e : Nat) (id : Int64) (streams : List LobStream) (s : Session σ) :
    (advance e id streams s).1.begun = true := by
  induction streams generalizing s with
  | nil =>
    rw [advance]
    split <;> rfl
  | cons opened rest ih =>
    rw [advance]
    split
    · exact ih _
    · split
      · rfl
      · exact ih _

/-- A close that goes on has begun, and stays so. -/
theorem begun_proceed {step : Pause → Session σ → Option Pause × Session σ} {closing : Closing}
    {e : Nat} {s : Session σ} : (closing.proceed e step s).1.begun = closing.begun := by
  cases closing with
  | notBegun => rfl
  | done => rfl
  | ending pause =>
    rw [proceed]
    rcases step pause s with ⟨_ | _, t⟩ <;> rfl
  | releasing id pause rest =>
    rw [proceed]
    rcases step pause s with ⟨_ | _, t⟩
    · exact begun_advance e id rest t
    · rfl

/-- The close begins on an execution that is open, in any order of its open streams. -/
theorem start_cases (closing : Closing) (e : Nat) (order : List LobStream) (s : Session σ) :
    closing.start e order s = (closing, s) ∨ ∃ execution, s.executions[e]? = some execution ∧
      execution.closed = false ∧ order.Perm execution.unreleased ∧
      closing.start e order s =
        if s.isClosed then (.done, abandonStreams e order (s.withClosed e))
        else advance e execution.id order (s.withClosed e) := by
  unfold start
  cases hexecution : s.executions[e]? with
  | none => exact .inl rfl
  | some execution =>
    dsimp only
    by_cases hopen : execution.closed = false ∧ order.isPerm execution.unreleased = true
    · rw [if_neg (by simp [hopen])]
      exact .inr ⟨execution, rfl, hopen.1, List.isPerm_iff.1 hopen.2, rfl⟩
    · rw [if_pos (by cases hc : execution.closed <;> simp_all)]
      exact .inl rfl

/-- Whether the close goes on with the execution of this number, and ends it. -/
def Apt (id : Int64) : Closing → Prop
  | releasing other _ _ => other = id
  | ending pause => ∀ call ∈ pause.unsent, call.isEnd id = true
  | _ => True

end Closing

/-- What the close leaves as it is: it closes and releases streams together, on a session that is
up. -/
structure Around (link : Link σ) (e : Nat) (s t : Session (σ × List Bytes)) : Prop where
  settings : t.settings = s.settings
  names : t.names e = s.names e
  lastStream : t.lastStream = s.lastStream
  up : t.isUp link.watched = true → s.isUp link.watched = true
  marks : t.isUp link.watched = true →
    ∀ stream, t.marks e stream = s.marks e stream ∨ t.marks e stream = ⟨true, true⟩

section Around

variable {link : Link σ} {e : Nat} {s t u : Session (σ × List Bytes)} {more : List Invocation}

theorem Follows.around (h : Follows link more s t) : Around link e s t :=
  ⟨h.settings, names_congr h.executions, h.lastStream, h.up,
    fun _ stream => .inl (marks_congr h.executions stream)⟩

theorem Around.trans (h : Around link e s t) (h' : Around link e t u) : Around link e s u := by
  refine ⟨h'.settings.trans h.settings, h'.names.trans h.names, h'.lastStream.trans h.lastStream,
    fun hup => h.up (h'.up hup), fun hup stream => ?_⟩
  rcases h'.marks hup stream with hsame | hdone
  · rw [hsame]
    exact h.marks (h'.up hup) stream
  · exact .inr hdone

theorem Around.released (h : Around link e s t) (hup : t.isUp link.watched = true) {stream : UInt64}
    (hs : (s.marks e stream).released = true) : (t.marks e stream).released = true := by
  rcases h.marks hup stream with hsame | hdone
  · rw [hsame, hs]
  · rw [hdone]

theorem around_setMarks (stream : UInt64) :
    Around link e s (s.setMarks e stream ⟨true, true⟩) := by
  refine ⟨rfl, names_setMarks, rfl, id, fun _ other => ?_⟩
  by_cases hother : other = stream
  · subst hother
    by_cases hknows : s.Knows e other
    · exact .inr (marks_setMarks_self hknows)
    · refine .inr (marks_of_not_knows ?_)
      rwa [Knows, names_setMarks]
  · exact .inl (marks_setMarks_of_ne hother)

end Around

/-- How far the close gets through some streams. -/
structure Advanced (link : Link σ) (e : Nat) (id : Int64) (said others : List Invocation)
    (lost : List UInt64) (streams : List LobStream) (s : Session (σ × List Bytes))
    (closing : Closing) (t : Session (σ × List Bytes)) : Prop where
  tally : Tally link e id said (closing.unsent ++ others) lost closing.ends t
  around : Around link e s t
  closed : t.isExecutionClosed e = s.isExecutionClosed e
  begun : closing.begun = true
  apt : closing.Apt id
  suffix : closing.rest <:+ streams.tail
  passed : t.isUp link.watched = true →
    ∀ opened ∈ streams, (t.marks e opened.id).released = true ∨ opened ∈ closing.rest

section Advanced

variable {link : Link σ} {e : Nat} {id : Int64} {said others : List Invocation}
  {lost : List UInt64} {s t : Session (σ × List Bytes)}

/-- The close passes a stream that is released by then. -/
theorem Advanced.cons {opened : LobStream} {rest : List LobStream} {closing : Closing}
    {u : Session (σ × List Bytes)} (h : Advanced link e id said others lost rest t closing u)
    (haround : Around link e s t) (hclosed : t.isExecutionClosed e = s.isExecutionClosed e)
    (hreleased : (t.marks e opened.id).released = true) :
    Advanced link e id said others lost (opened :: rest) s closing u where
  tally := h.tally
  around := haround.trans h.around
  closed := h.closed.trans hclosed
  begun := h.begun
  apt := h.apt
  suffix := h.suffix.trans (List.tail_suffix rest)
  passed hup other hother := by
    rcases List.mem_cons.1 hother with rfl | hother
    · exact .inl (h.around.released hup hreleased)
    · exact h.passed hup other hother

/-- Behind the last stream the close ends the execution. -/
theorem advanced_end (h : Tally link e id said others lost 0 s) :
    Advanced link e id said others lost [] s (Closing.advance e id [] s).1
      (Closing.advance e id [] s).2 := by
  have hreadied := readied_ready link .dqp "closeRequest" [.long id] s
  rw [Closing.advance]
  generalize exec (ready .dqp "closeRequest" [.long id]) s = result at hreadied ⊢
  cases hreadied with
  | ready _ hmethod hargs hencodes hfollows =>
    exact ⟨(h.end_ready hencodes hmethod hargs).follows hfollows, hfollows.around,
      isExecutionClosed_congr hfollows.executions, rfl,
      List.forall_mem_singleton.2 (isEnd_end hmethod hargs),
      List.nil_suffix, fun _ opened hopened => absurd hopened List.not_mem_nil⟩
  | refused hfollows hwhy =>
    refine ⟨(h.end_refused fun hup => ?_).follows hfollows, hfollows.around,
      isExecutionClosed_congr hfollows.executions, rfl, trivial,
      List.nil_suffix, fun _ opened hopened => absurd hopened List.not_mem_nil⟩
    rw [hup] at hwhy
    exact hwhy.resolve_left (by simp)

/-- The close pauses at a stream whose release it has claimed and made ready. -/
theorem advanced_releasing {opened : LobStream} {rest : List LobStream} {call : Invocation}
    (htally : Tally link e id said (call :: others) lost 0 t)
    (haround : Around link e s t) (hclosed : t.isExecutionClosed e = s.isExecutionClosed e)
    (hreleased : (t.marks e opened.id).released = true) :
    Advanced link e id said others lost (opened :: rest) s
      (.releasing id (.sending call) rest) t where
  tally := htally
  around := haround
  closed := hclosed
  begun := rfl
  apt := rfl
  suffix := List.suffix_rfl
  passed _ other hother := by
    rcases List.mem_cons.1 hother with rfl | hother
    · exact .inl hreleased
    · exact .inr hother

theorem advanced_advance {streams : List LobStream}
    (h : Tally link e id said others lost 0 s)
    (hknown : ∀ opened ∈ streams, (opened.id, opened.reference) ∈ s.names e) :
    Advanced link e id said others lost streams s (Closing.advance e id streams s).1
      (Closing.advance e id streams s).2 := by
  induction streams generalizing s with
  | nil => exact advanced_end h
  | cons opened rest ih =>
    have hname := hknown opened List.mem_cons_self
    have hknows : s.Knows e opened.id := List.mem_map_of_mem hname
    have hmarked : Around link e s (s.setMarks e opened.id ⟨true, true⟩) :=
      around_setMarks opened.id
    have hmarks : ((s.setMarks e opened.id ⟨true, true⟩).marks e opened.id).released = true := by
      rw [marks_setMarks_self hknows]
    have hrest : ∀ other ∈ rest, (other.id, other.reference) ∈
        (s.setMarks e opened.id ⟨true, true⟩).names e := fun other hother =>
      names_setMarks.symm ▸ hknown other (List.mem_cons_of_mem _ hother)
    rw [Closing.advance]
    cases hfree : (s.marks e opened.id).released with
    | true =>
      rw [if_pos rfl]
      have halike : Alike link e s (s.setMarks e opened.id ⟨true, true⟩) :=
        ⟨rfl, rfl, names_setMarks, executionId_setMarks, released_setMarks hfree.symm,
          fun hup => hup⟩
      exact (ih (h.alike halike rfl) hrest).cons hmarked isExecutionClosed_setMarks hmarks
    | false =>
      rw [if_neg (by simp)]
      have hargs : streamArgs e opened.id opened.reference (s.setMarks e opened.id ⟨true, true⟩) =
          releaseArgs id opened.id opened.reference := by
        rw [streamArgs, executionId_setMarks, h.id_eq, releaseArgs]
      have hreadied := readied_ready link .dqp "closeLobChunkStream"
        (releaseArgs id opened.id opened.reference) (s.setMarks e opened.id ⟨true, true⟩)
      rw [hargs]
      generalize exec (ready .dqp "closeLobChunkStream"
        (releaseArgs id opened.id opened.reference)) (s.setMarks e opened.id ⟨true, true⟩) = result
        at hreadied ⊢
      cases hreadied with
      | ready hservice hmethod hsame hencodes hfollows =>
        have htally : Tally link e id said (_ :: others) lost 0
            (s.setMarks e opened.id ⟨true, true⟩) :=
          h.claim_ready hname hfree rfl hencodes hservice hmethod hsame
        refine advanced_releasing (htally.follows hfollows) (hmarked.trans hfollows.around)
          ((isExecutionClosed_congr hfollows.executions).trans isExecutionClosed_setMarks) ?_
        rw [marks_congr hfollows.executions, hmarks]
      | refused hfollows hwhy =>
        have htally : Tally link e id said others lost 0
            (s.setMarks e opened.id ⟨true, true⟩) := by
          refine h.claim_refused hname hfree rfl fun hup => ?_
          have hdown : (s.setMarks e opened.id ⟨true, true⟩).isUp link.watched = true := hup
          rw [hdown] at hwhy
          exact hwhy.resolve_left (by simp)
        rw [← names_congr hfollows.executions] at hrest
        refine (ih (htally.follows hfollows) hrest).cons (hmarked.trans hfollows.around)
          ((isExecutionClosed_congr hfollows.executions).trans isExecutionClosed_setMarks) ?_
        rw [marks_congr hfollows.executions, hmarks]

end Advanced

/-! ## The turns -/

/-- What holds between the close and the session: it has begun once the execution is closed, and on
a session that is up every stream is released but for the rest. -/
structure Closing.Sound (link : Link σ) (e : Nat) (id : Int64) (closing : Closing)
    (s : Session (σ × List Bytes)) : Prop where
  begun : s.isExecutionClosed e = closing.begun
  apt : closing.Apt id
  known : ∀ opened ∈ closing.rest, (opened.id, opened.reference) ∈ s.names e
  short : closing.rest ≠ [] → closing.rest.length < (s.names e).length
  passed : s.isUp link.watched = true → closing.begun = true → ∀ name ∈ s.names e,
    (s.marks e name.1).released = true ∨ ∃ opened ∈ closing.rest, opened.id = name.1

section Turns

variable {link : Link σ} {e : Nat} {id : Int64} {said others : List Invocation}
  {lost : List UInt64} {s t : Session (σ × List Bytes)} {closing : Closing}

/-- Nothing disturbs the close as long as what is released stays so. -/
theorem Closing.Sound.mono (h : closing.Sound link e id s) (hnames : t.names e = s.names e)
    (hclosed : t.isExecutionClosed e = s.isExecutionClosed e)
    (hup : t.isUp link.watched = true → s.isUp link.watched = true)
    (hreleased : t.isUp link.watched = true → ∀ name ∈ s.names e,
      (s.marks e name.1).released = true → (t.marks e name.1).released = true) :
    closing.Sound link e id t where
  begun := hclosed.trans h.begun
  apt := h.apt
  known := by
    rw [hnames]
    exact h.known
  short := by
    rw [hnames]
    exact h.short
  passed ht hbegun name hname := by
    rw [hnames] at hname
    exact (h.passed (hup ht) hbegun name hname).imp_left (hreleased ht name hname)

theorem Closing.Sound.follows {more : List Invocation} (h : closing.Sound link e id s)
    (hfollows : Follows link more s t) : closing.Sound link e id t :=
  h.mono (names_congr hfollows.executions) (isExecutionClosed_congr hfollows.executions)
    hfollows.up fun _ name _ hreleased => by rwa [marks_congr hfollows.executions]

/-- Every stream is released once the close is done, on a session that is up. -/
theorem Closing.Sound.released (h : closing.Sound link e id s) (hdone : closing = .done)
    (hup : s.isUp link.watched = true) {name : UInt64 × LobReference} (hname : name ∈ s.names e) :
    (s.marks e name.1).released = true := by
  subst hdone
  rcases h.passed hup rfl name hname with hreleased | ⟨opened, hrest, -⟩
  · exact hreleased
  · cases hrest

/-- Once the close has begun, it is at one stream while the release of another is free. -/
theorem Closing.Sound.two_le_of_free (h : closing.Sound link e id s)
    (hup : s.isUp link.watched = true) (hclosed : s.isExecutionClosed e = true)
    {name : UInt64 × LobReference} (hname : name ∈ s.names e)
    (hfree : (s.marks e name.1).released = false) : 2 ≤ (s.names e).length := by
  have hbegun : closing.begun = true := h.begun.symm.trans hclosed
  rcases h.passed hup hbegun name hname with hgone | ⟨opened, hrest, -⟩
  · rw [hfree] at hgone
    cases hgone
  · have hshort := h.short (List.ne_nil_of_mem hrest)
    have hpos := List.length_pos_of_mem hrest
    omega

/-- The close goes on with the rest as it stands. -/
theorem Advanced.sound {streams : List LobStream}
    (h : Advanced link e id said others lost streams s closing t)
    (hclosed : s.isExecutionClosed e = true)
    (hknown : ∀ opened ∈ streams, (opened.id, opened.reference) ∈ s.names e)
    (hlength : streams.length ≤ (s.names e).length)
    (hpassed : s.isUp link.watched = true → ∀ name ∈ s.names e,
      (s.marks e name.1).released = true ∨ ∃ opened ∈ streams, opened.id = name.1) :
    closing.Sound link e id t where
  begun := by rw [h.closed, hclosed, h.begun]
  apt := h.apt
  known opened hopened := by
    rw [h.around.names]
    exact hknown opened (List.mem_of_mem_tail (h.suffix.mem hopened))
  short hrest := by
    rw [h.around.names]
    have hle := h.suffix.length_le
    have hpos := List.length_pos_iff.2 hrest
    rw [List.length_tail] at hle
    omega
  passed hup _ name hname := by
    rw [h.around.names] at hname
    rcases hpassed (h.around.up hup) name hname with hreleased | ⟨opened, hopened, heq⟩
    · exact .inl (h.around.released hup hreleased)
    · rcases h.passed hup opened hopened with hreleased | hrest
      · exact .inl (heq ▸ hreleased)
      · exact .inr ⟨opened, hrest, heq⟩

/-- What a pause comes to goes into the account. -/
theorem Stepped.tally {pause : Pause} {next : Option Pause} {ends : Nat}
    (hstepped : Stepped link s pause (next, t))
    (h : Tally link e id said (pause.unsent ++ others) lost ends s) :
    ∃ more, (more = [] ∨ more = pause.unsent) ∧ Follows link more s t ∧
      Tally link e id (said ++ more) (next.elim [] Pause.unsent ++ others) lost ends t := by
  cases hstepped with
  | still hunsent hfollows =>
    refine ⟨[], .inl rfl, hfollows, ?_⟩
    rw [hunsent, List.append_nil]
    exact h.follows hfollows
  | @sent _ _ call hbefore hafter hfollows =>
    rw [hbefore] at h
    refine ⟨[call], .inr hbefore.symm, hfollows, ?_⟩
    rw [hafter]
    exact h.sent hfollows
  | refused hbefore hafter hfollows hdown =>
    rw [hbefore] at h
    refine ⟨[], .inl rfl, hfollows, ?_⟩
    rw [hafter, List.append_nil]
    exact h.refused hfollows hdown

/-- What the close comes to in one turn. -/
structure Closing.Turned (link : Link σ) (e : Nat) (id : Int64) (said others : List Invocation)
    (lost : List UInt64) (closing : Closing) (s : Session (σ × List Bytes)) (next : Closing)
    (t : Session (σ × List Bytes)) : Prop where
  tally : ∃ more, (more = [] ∨ more = closing.unsent) ∧
    Tally link e id (said ++ more) (next.unsent ++ others) lost next.ends t
  sound : next.Sound link e id t
  around : Around link e s t

theorem turned_self (h : Tally link e id said (closing.unsent ++ others) lost closing.ends s)
    (hsound : closing.Sound link e id s) :
    closing.Turned link e id said others lost s closing s where
  tally := ⟨[], .inl rfl, by rwa [List.append_nil]⟩
  sound := hsound
  around := (Follows.refl s).around

theorem alike_withClosed : Alike link e s (s.withClosed e) :=
  ⟨rfl, rfl, names_withClosed, executionId_withClosed,
    fun stream => congrArg Lob.Marks.released (marks_withClosed stream), fun hup => hup⟩

theorem around_withClosed : Around link e s (s.withClosed e) :=
  ⟨rfl, names_withClosed, rfl, fun hup => hup, fun _ stream => .inl (marks_withClosed stream)⟩

/-- The close begins on a session that is down: it ends at once. -/
theorem turned_abandon {order : List LobStream} (h : Tally link e id said others lost 0 s)
    (hdown : s.isClosed = true) :
    Closing.Turned link e id said others lost .notBegun s .done
      (abandonStreams e order (s.withClosed e)) := by
  obtain ⟨hnames, hclosed, hid, hreleased, hsame⟩ :=
    abandonStreams_spec (e := e) order (s.withClosed e)
  generalize abandonStreams e order (s.withClosed e) = t at *
  have hlost : ¬ t.isUp link.watched = true := by
    have hcalls : t.isClosed = s.isClosed := by
      rw [hsame]
      rfl
    simp [isUp, hcalls, hdown]
  have hdone : Alike link e (s.withClosed e) t := by
    refine ⟨?_, ?_, hnames, hid, hreleased, fun hup => absurd hup hlost⟩ <;> rw [hsame]
  have htally := (h.alike alike_withClosed rfl).alike hdone (by rw [hsame])
  refine ⟨⟨[], .inl rfl, ?_⟩, ?_, ?_⟩
  · rw [List.append_nil]
    exact htally.end_refused fun hup => absurd hup hlost
  · exact ⟨hclosed.trans isExecutionClosed_withClosed, trivial,
      fun opened hopened => absurd hopened List.not_mem_nil, fun hrest => absurd rfl hrest,
      fun hup => absurd hup hlost⟩
  · exact ⟨hdone.settings, hnames.trans names_withClosed, hdone.lastStream,
      fun hup => absurd hup hlost, fun hup => absurd hup hlost⟩

/-- The close begins, and goes through the streams that are open. -/
theorem turned_advance {order : List LobStream} {execution : Execution}
    (h : Tally link e id said others lost 0 s) (hexecution : s.executions[e]? = some execution)
    (horder : order.Perm execution.unreleased) :
    Closing.Turned link e id said others lost .notBegun s
      (Closing.advance e id order (s.withClosed e)).1
      (Closing.advance e id order (s.withClosed e)).2 := by
  have hknown : ∀ opened ∈ order, (opened.id, opened.reference) ∈ (s.withClosed e).names e := by
    intro opened hopened
    rw [names_withClosed, names, hexecution]
    exact List.mem_map_of_mem (List.mem_of_mem_filter (horder.mem_iff.1 hopened))
  have hadvanced := advanced_advance (h.alike alike_withClosed rfl) hknown
  refine ⟨⟨[], .inl rfl, ?_⟩, hadvanced.sound isExecutionClosed_withClosed hknown ?_
    fun hup name hname => ?_, around_withClosed.trans hadvanced.around⟩
  · rw [List.append_nil]
    exact hadvanced.tally
  · rw [names_withClosed, names, hexecution, List.length_map, horder.length_eq]
    exact List.length_filter_le _ _
  · rw [names_withClosed, names, hexecution] at hname
    obtain ⟨opened, hopened, rfl⟩ := List.mem_map.1 hname
    have hmarks := marks_of_mem hexecution h.distinct hopened
    rw [marks_withClosed, hmarks]
    cases hreleased : opened.marks.released with
    | true => exact .inl rfl
    | false =>
      refine .inr ⟨opened, horder.mem_iff.2 (List.mem_filter.2 ⟨hopened, ?_⟩), rfl⟩
      rw [hreleased]
      rfl

theorem turned_start (order : List LobStream)
    (h : Tally link e id said (closing.unsent ++ others) lost closing.ends s)
    (hsound : closing.Sound link e id s) :
    closing.Turned link e id said others lost s (closing.start e order s).1
      (closing.start e order s).2 := by
  rcases closing.start_cases e order s with hsame | ⟨execution, hexecution, hopen, horder, hstart⟩
  · rw [hsame]
    exact turned_self h hsound
  · have hbegun : closing.begun = false := by
      rw [← hsound.begun, isExecutionClosed, hexecution]
      exact hopen
    obtain rfl := Closing.eq_notBegun hbegun
    have hid : execution.id = id := by
      rw [← h.id_eq, executionId, hexecution]
    rw [hstart, hid]
    by_cases hdown : s.isClosed = true
    · rw [if_pos hdown]
      exact turned_abandon h hdown
    · rw [if_neg hdown]
      exact turned_advance h hexecution horder

theorem turned_proceed {step : Pause → Session (σ × List Bytes) →
      Option Pause × Session (σ × List Bytes)}
    (h : Tally link e id said (closing.unsent ++ others) lost closing.ends s)
    (hsound : closing.Sound link e id s)
    (hstep : ∀ pause : Pause, (∀ call ∈ pause.unsent, call.Encodes s.settings) →
      Stepped link s pause (step pause s)) :
    closing.Turned link e id said others lost s (closing.proceed e step s).1
      (closing.proceed e step s).2 := by
  cases closing with
  | notBegun => exact turned_self h hsound
  | done => exact turned_self h hsound
  | ending pause =>
    have hstepped := hstep pause fun call hcall => h.encodes call (List.mem_append_left _ hcall)
    rw [Closing.proceed]
    generalize step pause s = result at hstepped ⊢
    obtain ⟨next, t⟩ := result
    obtain ⟨more, hmore, hfollows, htally⟩ := hstepped.tally h
    have hnext := hsound.follows hfollows
    refine ⟨⟨more, hmore, ?_⟩, ?_, hfollows.around⟩
    · cases next <;> exact htally
    · have hapt := hstepped.subset
      cases next with
      | none => exact ⟨hnext.begun, trivial, hnext.known, hnext.short, hnext.passed⟩
      | some next =>
        exact ⟨hnext.begun, fun call hcall => hsound.apt call (hapt hcall), hnext.known,
          hnext.short, hnext.passed⟩
  | releasing other pause rest =>
    obtain rfl : other = id := hsound.apt
    have hstepped := hstep pause fun call hcall => h.encodes call (List.mem_append_left _ hcall)
    rw [Closing.proceed]
    generalize step pause s = result at hstepped ⊢
    obtain ⟨next, t⟩ := result
    obtain ⟨more, hmore, hfollows, htally⟩ := hstepped.tally h
    have hnext := hsound.follows hfollows
    cases next with
    | some next =>
      exact ⟨⟨more, hmore, htally⟩,
        ⟨hnext.begun, rfl, hnext.known, hnext.short, hnext.passed⟩, hfollows.around⟩
    | none =>
      have hclaimed : Tally link e other (said ++ more) others lost 0 t := htally
      have hadvanced := advanced_advance hclaimed hnext.known
      refine ⟨⟨more, hmore, hadvanced.tally⟩, hadvanced.sound hnext.begun hnext.known ?_
        (fun hup => hnext.passed hup rfl), hfollows.around.trans hadvanced.around⟩
      by_cases hrest : rest = []
      · simp [hrest, Closing.rest]
      · exact (hnext.short hrest).le

end Turns

end QueryClient.Session
