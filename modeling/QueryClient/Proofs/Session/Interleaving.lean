import QueryClient.Proofs.Session.Closes
import QueryClient.Proofs.Session.Fatality

/-!
# Whoever's turn it is

All tasks of an execution keep one account, in whatever order they take their turns. So no stream is
released more than once, and no execution is ended more than once. On a session that is up, a stream
whose release is claimed is released, unless its streamer claimed it while the close of the
execution was under way: the claim is then lost.
-/

namespace QueryClient.Session

variable {σ : Type} (link : Link σ) (e : Nat)

namespace Scene

/-- The streams of which a turn claims the release in vain. -/
def lapses (turn : Turn) (scene : Scene σ) : List UInt64 :=
  match turn with
  | .act i _ =>
    match scene.seats[i]? with
    | some seat =>
      Session.lapses e seat.streamer.stream scene.session (scene.turn link e turn).session
    | none => []
  | _ => []

/-- The streams of which the release is claimed in vain during some turns: by their own streamer,
once the execution has been closed. -/
def lapsed : List Turn → Scene σ → List UInt64
  | [], _ => []
  | turn :: rest, scene => scene.lapses link e turn ++ lapsed rest (scene.turn link e turn)

end Scene

variable {link e}

/-- What becomes of a session in some turns: once it is down it stays down, and at most `n` numbers
are given to streams. -/
structure Later (link : Link σ) (n : Nat) (s t : Session (σ × List Bytes)) : Prop where
  settings : t.settings = s.settings
  up : t.isUp link.watched = true → s.isUp link.watched = true
  lastStream_le : t.lastStream.toNat ≤ s.lastStream.toNat + n

namespace Later

variable {n m : Nat} {s t u : Session (σ × List Bytes)}

theorem of_eq (hsettings : t.settings = s.settings) (hlast : t.lastStream = s.lastStream)
    (hup : t.isUp link.watched = true → s.isUp link.watched = true) : Later link n s t := by
  refine ⟨hsettings, hup, ?_⟩
  rw [hlast]
  exact Nat.le_add_right _ _

theorem refl (s : Session (σ × List Bytes)) : Later link n s s :=
  of_eq rfl rfl id

theorem trans (h : Later link n s t) (h' : Later link m t u) : Later link (n + m) s u := by
  refine ⟨h'.settings.trans h.settings, fun hup => h.up (h'.up hup), ?_⟩
  have hfirst := h.lastStream_le
  have hsecond := h'.lastStream_le
  omega

end Later

theorem stream_ne_of_ne {seats : List Seat} (hdistinct : (seats.map (·.streamer.stream)).Nodup)
    {i j : Nat} {seat other : Seat} (hseat : seats[i]? = some seat)
    (hother : seats[j]? = some other) (hne : j ≠ i) :
    other.streamer.stream ≠ seat.streamer.stream := by
  have hj : j < (seats.map (·.streamer.stream)).length := by
    simpa using (List.getElem?_eq_some_iff.1 hother).1
  intro hsame
  exact hne ((List.getElem?_inj hj hdistinct).1 (by simp [hseat, hother, hsame]))

/-- What holds between the tasks of an execution, whoever's turn it is. -/
structure Scene.Sound (link : Link σ) (e : Nat) (id : Int64) (said : List Invocation)
    (lost : List UInt64) (scene : Scene (σ × List Bytes)) : Prop where
  tally : Tally link e id said scene.unsent lost scene.closing.ends scene.session
  closing : scene.closing.Sound link e id scene.session
  seated : scene.seats.map Seat.name = scene.session.names e
  settled : scene.session.isUp link.watched = true → ∀ seat ∈ scene.seats,
    (scene.session.marks e seat.streamer.stream).released =
      ((scene.session.marks e seat.streamer.stream).closed || seat.streamer.lastSeen)
  window : scene.session.isUp link.watched = true → lost ≠ [] → 2 ≤ (scene.session.names e).length

namespace Scene.Sound

variable {id : Int64} {said : List Invocation} {lost : List UInt64}
  {scene : Scene (σ × List Bytes)}

theorem unsent_perm {before after : List Seat} {seat : Seat} {closing : Closing}
    {s : Session σ} : (Scene.unsent ⟨s, before ++ seat :: after, closing⟩).Perm
      (seat.unsent ++ (closing.unsent ++ (before.flatMap Seat.unsent ++
        after.flatMap Seat.unsent))) := by
  simp only [Scene.unsent, List.flatMap_append, List.flatMap_cons]
  exact ((List.perm_append_comm_assoc ..).append_left closing.unsent).trans
    (List.perm_append_comm_assoc ..)

theorem name_mem (h : Sound link e id said lost scene) {seat : Seat} (hseat : seat ∈ scene.seats) :
    seat.name ∈ scene.session.names e :=
  h.seated ▸ List.mem_map_of_mem hseat

/-- No two streamers read one stream. -/
theorem distinct (h : Sound link e id said lost scene) :
    (scene.seats.map (·.streamer.stream)).Nodup := by
  have hdistinct := h.tally.distinct
  rwa [← h.seated, List.map_map] at hdistinct

/-- The turn of a streamer claims the release of its stream exactly if it closes it or brings it to
its end. -/
theorem settled_act (h : Sound link e id said lost scene) {i : Nat} {seat : Seat}
    (hseat : scene.seats[i]? = some seat) (move : Seat.Move)
    (hsettled : ∀ seat ∈ scene.seats, (scene.session.marks e seat.streamer.stream).released =
      ((scene.session.marks e seat.streamer.stream).closed || seat.streamer.lastSeen)) :
    ∀ other ∈ scene.seats.set i (seat.act link.watched e move scene.session).1,
      ((seat.act link.watched e move scene.session).2.marks e other.streamer.stream).released =
        (((seat.act link.watched e move scene.session).2.marks e other.streamer.stream).closed ||
          other.streamer.lastSeen) := by
  have hmem := List.mem_of_getElem? hseat
  have hknows : scene.session.Knows e seat.streamer.stream :=
    List.mem_map_of_mem (h.seated ▸ List.mem_map_of_mem hmem)
  have hacted := acted_act link e scene.session move seat fun call hcall =>
    h.tally.encodes call (List.mem_append_right _ (List.mem_flatMap.2 ⟨seat, hmem, hcall⟩))
  have hname := congrArg Prod.fst (name_act link e scene.session move seat)
  generalize seat.act link.watched e move scene.session = result at *
  intro other hother
  obtain ⟨j, hj⟩ := List.mem_iff_getElem?.1 hother
  by_cases hi : i = j
  · subst hi
    rw [List.getElem?_set_self (List.getElem?_eq_some_iff.1 hseat).1] at hj
    obtain rfl := Option.some.inj hj
    have hstream : result.1.streamer.stream = seat.streamer.stream := hname
    rw [hstream]
    exact hacted.settled hknows (hsettled seat hmem)
  · rw [List.getElem?_set_ne hi] at hj
    rw [hacted.beside.others _ (stream_ne_of_ne h.distinct hseat hj (Ne.symm hi))]
    exact hsettled other (List.mem_of_getElem? hj)

/-- A streamer takes its turn. -/
theorem act (h : Sound link e id said lost scene) {i : Nat} {seat : Seat}
    (hseat : scene.seats[i]? = some seat) (move : Seat.Move) :
    ∃ more, (more = [] ∨ more = seat.unsent) ∧
      Sound link e id (said ++ more)
        (lost ++ Session.lapses e seat.streamer.stream scene.session
          (seat.act link.watched e move scene.session).2)
        (scene.seated i (seat.act link.watched e move scene.session)) ∧
      Beside link e seat.streamer.stream scene.session
        (seat.act link.watched e move scene.session).2 := by
  have hsettled := h.settled_act hseat move
  obtain ⟨s, seats, closing⟩ := scene
  have hsame := name_act link e s move seat
  have hacted := acted_act link e s move seat
  unfold Scene.seated
  dsimp only at hseat ⊢
  generalize seat.act link.watched e move s = result at *
  obtain ⟨next, t⟩ := result
  obtain ⟨hi, rfl⟩ := List.getElem?_eq_some_iff.1 hseat
  obtain ⟨before, after, hseats, -, hset⟩ := @List.exists_of_set _ _ next seats hi
  generalize seats[i] = seat at *
  dsimp only at hsettled
  rw [hset] at hsettled ⊢
  subst hseats
  have htally := h.tally.perm unsent_perm
  have hnames : seat.name ∈ s.names e := by
    rw [← h.seated]
    exact List.mem_map_of_mem (by simp)
  have hknows : s.Knows e seat.streamer.stream := List.mem_map_of_mem hnames
  have hacted := hacted fun call hcall => htally.encodes call (List.mem_append_left _ hcall)
  have hbeside := hacted.beside
  obtain ⟨more, hmore, htally'⟩ := hacted.tally htally hnames
  refine ⟨more, hmore, ⟨htally'.perm unsent_perm.symm, ?_, ?_,
    fun ht => hsettled (h.settled (hbeside.up ht)), fun ht hlost => ?_⟩, hbeside⟩
  · exact h.closing.mono hbeside.names hbeside.closed hbeside.up
      fun _ _ _ hreleased => hacted.released hknows hreleased
  · rw [hbeside.names, ← h.seated]
    simp [hsame]
  · rw [hbeside.names]
    by_cases hlapses : Session.lapses e seat.streamer.stream s t = []
    · rw [hlapses, List.append_nil] at hlost
      exact h.window (hbeside.up ht) hlost
    · obtain ⟨hclosed, hfree⟩ := Acted.of_lapses hlapses
      exact h.closing.two_le_of_free (hbeside.up ht) hclosed hnames hfree

/-- The close takes its turn. -/
theorem close (h : Sound link e id said lost scene) {result : Closing × Session (σ × List Bytes)}
    (hresult : ∀ {others : List Invocation},
      Tally link e id said (scene.closing.unsent ++ others) lost scene.closing.ends scene.session →
      scene.closing.Turned link e id said others lost scene.session result.1 result.2) :
    ∃ more, (more = [] ∨ more = scene.closing.unsent) ∧
      Sound link e id (said ++ more) lost (scene.closed result) ∧
      Around link e scene.session result.2 := by
  obtain ⟨next, t⟩ := result
  have hturned := hresult h.tally
  obtain ⟨more, hmore, htally⟩ := hturned.tally
  refine ⟨more, hmore, ⟨htally, hturned.sound, h.seated.trans hturned.around.names.symm,
    fun ht seat hseat => ?_, fun ht hlost => ?_⟩, hturned.around⟩
  · have hsettled := h.settled (hturned.around.up ht) seat hseat
    rcases hturned.around.marks ht seat.streamer.stream with hsame | hdone
    · rw [Scene.closed]
      dsimp only
      rw [hsame]
      exact hsettled
    · rw [Scene.closed]
      dsimp only
      rw [hdone]
      rfl
  · rw [Scene.closed]
    dsimp only
    rw [hturned.around.names]
    exact h.window (hturned.around.up ht) hlost

/-- Something comes in. -/
theorem listen (h : Sound link e id said lost scene) (hsteady : link.Steady) (moment : Instant) :
    Sound link e id said lost
      { scene with session := Session.listen link.watched moment scene.session } := by
  have hfollows := Follows.listen (s := scene.session) hsteady moment
  refine ⟨h.tally.follows hfollows, h.closing.follows hfollows,
    h.seated.trans (names_congr hfollows.executions).symm, fun ht seat hseat => ?_,
    fun ht hlost => ?_⟩
  · dsimp only
    rw [marks_congr hfollows.executions]
    exact h.settled (hfollows.up ht) seat hseat
  · dsimp only
    rw [names_congr hfollows.executions]
    exact h.window (hfollows.up ht) hlost

theorem openLob_of_open {scene : Scene σ} (reference : LobReference)
    (hopen : scene.session.isExecutionClosed e = false) :
    scene.openLob e reference =
      { scene with
        session := scene.session.withStream e reference
        seats := scene.seats ++ [⟨Streamer.start (scene.session.lastStream + 1) reference
          scene.session.settings.callTimeout, .idle⟩] } := by
  unfold Scene.openLob
  rw [exec_openLob, hopen]
  rfl

theorem openLob_of_closed {scene : Scene σ} (reference : LobReference)
    (hclosed : scene.session.isExecutionClosed e = true) : scene.openLob e reference = scene := by
  unfold Scene.openLob
  rw [exec_openLob, hclosed]
  rfl

/-- Nothing of a stream that has just been opened is claimed. -/
theorem settled_withStream (h : Sound link e id said lost scene) (reference : LobReference)
    (hopen : scene.session.isExecutionClosed e = false)
    (hfew : scene.session.lastStream.toNat + 1 < 2 ^ 64) (timeout : Duration)
    (hsettled : ∀ seat ∈ scene.seats, (scene.session.marks e seat.streamer.stream).released =
      ((scene.session.marks e seat.streamer.stream).closed || seat.streamer.lastSeen)) :
    ∀ seat ∈ scene.seats ++
        [⟨Streamer.start (scene.session.lastStream + 1) reference timeout, .idle⟩],
      ((scene.session.withStream e reference).marks e seat.streamer.stream).released =
        (((scene.session.withStream e reference).marks e seat.streamer.stream).closed ||
          seat.streamer.lastSeen) := by
  intro seat hseat
  rcases List.mem_append.1 hseat with hseat | hseat
  · have hknows : scene.session.Knows e seat.streamer.stream :=
      List.mem_map_of_mem (h.name_mem hseat)
    rw [marks_withStream_of_knows hopen hknows]
    exact hsettled seat hseat
  · rw [List.mem_singleton.1 hseat]
    dsimp only [Streamer.start]
    rw [marks_withStream_new hopen (h.tally.not_knows_next hfew)]
    rfl

/-- A stream is opened, unless the execution is closed. -/
theorem openLob (h : Sound link e id said lost scene) (reference : LobReference)
    (hfew : scene.session.lastStream.toNat + 1 < 2 ^ 64) :
    Sound link e id said lost (scene.openLob e reference) ∧
      Later link 1 scene.session (scene.openLob e reference).session := by
  cases hopen : scene.session.isExecutionClosed e with
  | true =>
    rw [openLob_of_closed reference hopen]
    exact ⟨h, .of_eq rfl rfl fun hup => hup⟩
  | false =>
    rw [openLob_of_open reference hopen]
    have hbefore : scene.closing = .notBegun :=
      Closing.eq_notBegun (h.closing.begun.symm.trans hopen)
    have htally := h.tally.opened reference hopen hfew
    refine ⟨⟨?_, ?_, ?_, fun ht => h.settled_withStream reference hopen hfew _ (h.settled ht),
      fun ht hlost => ?_⟩, rfl, fun hup => hup, (Tally.toNat_next hfew).le⟩
    · refine htally.perm (List.Perm.of_eq ?_)
      simp [Scene.unsent, Seat.unsent]
    · rw [hbefore]
      exact ⟨isExecutionClosed_withStream hopen, trivial,
        fun _ hrest => absurd hrest List.not_mem_nil, fun hrest => absurd rfl hrest,
        fun _ hdone => by cases hdone⟩
    · dsimp only
      rw [List.map_append, h.seated, names_withStream hopen]
      rfl
    · dsimp only
      rw [names_withStream hopen, List.length_append]
      exact (h.window ht hlost).trans (Nat.le_add_right _ _)

/-- **Each turn keeps the account of a scene**, and what it claims in vain is noted. -/
theorem turn (h : Sound link e id said lost scene) (hsteady : link.Steady) (turn : Turn)
    (hfew : ∀ reference, turn = .openLob reference →
      scene.session.lastStream.toNat + 1 < 2 ^ 64) :
    ∃ more, Sound link e id (said ++ more) (lost ++ scene.lapses link.watched e turn)
        (scene.turn link.watched e turn) ∧
      Later link 1 scene.session (scene.turn link.watched e turn).session := by
  cases turn with
  | openLob reference =>
    refine ⟨[], ?_⟩
    simp only [Scene.lapses, List.append_nil]
    exact h.openLob reference (hfew reference rfl)
  | act i move =>
    simp only [Scene.lapses, Scene.turn]
    cases hseat : scene.seats[i]? with
    | none =>
      refine ⟨[], ?_, .of_eq rfl rfl fun hup => hup⟩
      simp only [List.append_nil]
      exact h
    | some seat =>
      obtain ⟨more, -, hsound, hbeside⟩ := h.act hseat move
      exact ⟨more, hsound, .of_eq hbeside.settings hbeside.lastStream hbeside.up⟩
  | closeExecution order =>
    simp only [Scene.lapses, List.append_nil]
    obtain ⟨more, -, hsound, haround⟩ := h.close fun htally => turned_start order htally h.closing
    exact ⟨more, hsound, .of_eq haround.settings haround.lastStream haround.up⟩
  | resume =>
    simp only [Scene.lapses, List.append_nil]
    obtain ⟨more, -, hsound, haround⟩ := h.close fun htally =>
      turned_proceed htally h.closing fun _ => stepped_resume
    exact ⟨more, hsound, .of_eq haround.settings haround.lastStream haround.up⟩
  | timeOut =>
    simp only [Scene.lapses, List.append_nil]
    obtain ⟨more, -, hsound, haround⟩ := h.close fun htally =>
      turned_proceed htally h.closing fun _ _ => stepped_timeOut
    exact ⟨more, hsound, .of_eq haround.settings haround.lastStream haround.up⟩
  | listen moment =>
    have hfollows := Follows.listen (s := scene.session) hsteady moment
    refine ⟨[], ?_, .of_eq hfollows.settings hfollows.lastStream hfollows.up⟩
    simp only [Scene.lapses, List.append_nil]
    exact h.listen hsteady moment

/-- **A run keeps the account of a scene**, whatever turns it takes. -/
theorem run (h : Sound link e id said lost scene) (hsteady : link.Steady) (turns : List Turn)
    (hfew : scene.session.lastStream.toNat + turns.length < 2 ^ 64) :
    ∃ more, Sound link e id (said ++ more) (lost ++ scene.lapsed link.watched e turns)
        (scene.run link.watched e turns) ∧
      Later link turns.length scene.session (scene.run link.watched e turns).session := by
  induction turns generalizing scene said lost with
  | nil => exact ⟨[], by simpa [Scene.run, Scene.lapsed] using h, .refl _⟩
  | cons turn rest ih =>
    rw [List.length_cons] at hfew
    obtain ⟨more, hturn, hlater⟩ := h.turn hsteady turn fun _ _ => by omega
    have hnumbers := hlater.lastStream_le
    obtain ⟨later, hrun, hrest⟩ := ih hturn (by omega)
    refine ⟨more ++ later, ?_, ?_⟩
    · rw [Scene.lapsed, ← List.append_assoc, ← List.append_assoc]
      exact hrun
    · rw [List.length_cons, Nat.add_comm]
      exact hlater.trans hrest

variable (link) in
/-- Nothing has happened before the first turn. -/
theorem start {s : Session σ} (hbegun : s.executions[e]? = some (Execution.start id)) :
    Sound link e id [] [] (Scene.start s.watch) := by
  have hbegun' : s.watch.executions[e]? = some (Execution.start id) := hbegun
  have hnames : s.watch.names e = [] := by
    rw [names, hbegun']
    rfl
  have hclosed : s.watch.isExecutionClosed e = false := by
    rw [isExecutionClosed, hbegun']
    rfl
  have hid : s.watch.executionId e = id := by
    rw [executionId, hbegun']
    rfl
  refine ⟨⟨hid, .nil, fun _ hcall => absurd hcall List.not_mem_nil, ?_, ?_, fun _ _ => rfl,
    fun _ _ => Nat.zero_le _, ?_, fun _ _ _ => rfl, Nat.le_refl _, fun _ _ => Nat.le_refl _⟩,
    ⟨hclosed, trivial, fun _ hrest => absurd hrest List.not_mem_nil,
      fun hrest => absurd rfl hrest, fun _ hdone => by cases hdone⟩, hnames.symm,
    fun _ _ hseat => absurd hseat List.not_mem_nil, fun _ hlost => absurd rfl hlost⟩
  · intro name hname
    rw [Scene.start, hnames] at hname
    cases hname
  · rw [Scene.start, hnames]
    exact List.nodup_nil
  · intro _ name hname
    rw [Scene.start, hnames] at hname
    cases hname

end Scene.Sound

/-! ## What becomes of the releases -/

theorem unsent_of_isResting {seat : Seat} (h : seat.isResting = true) : seat.unsent = [] := by
  obtain ⟨streamer, stage⟩ := seat
  cases stage with
  | idle => rfl
  | gone => rfl
  | _ => cases h

theorem unsent_of_resting {seats : List Seat} (h : ∀ seat ∈ seats, seat.isResting = true) :
    seats.flatMap Seat.unsent = [] :=
  List.flatMap_eq_nil_iff.2 fun seat hseat => unsent_of_isResting (h seat hseat)

/-- A session with an execution that has just begun, over a server that will say some messages. -/
def answeredBy (replies : List Message) : Session Inflow :=
  (exec (beginExecution 1)
    (start Settings.standard Handshake.client ⟨replies.map framed, .quiet⟩)).2

/-- The answers to both calls of the close. -/
def twoReplies : List Message :=
  [.reply (Calls.nullReply 1), .reply (Calls.nullReply 2)]

/-- The call that a server takes from a frame. -/
def calledBy (frame : Bytes) : Option Invocation :=
  match Frame.decode .empty Frame.defaultMax frame with
  | .ok (.invocation call) => some call
  | _ => none

end QueryClient.Session
