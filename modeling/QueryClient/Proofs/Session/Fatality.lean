import QueryClient.Proofs.Session.Fetching

/-!
# Fatal faults and the end of a session

A session that cannot go on after a fault should be over when the fault is returned. It is, whenever
the fault has come in from the server or out of the table of calls: the session is lost then, no
call waits, and each call without a reply fails over the same loss. The faults that are made on the
client's side of the table are as fatal, and nobody there shuts the session down.
-/

namespace QueryClient.Session

open Calls

variable {σ α : Type}

/-- Something that a client does with a session. -/
inductive Act : Type 1 where
  | invoke (service : Service) (method : String) (args : List Value)
  | wait (timeout : Duration) (handle : Handle)
  | abandon (handle : Handle)
  | callWithin (timeout : Duration) (service : Service) (method : String) (args : List Value)
  | call (service : Service) (method : String) (args : List Value)
  | ping
  | logon {ν : Type} (negotiator : Option (Negotiator ν)) (state : ν) (credentials : Credentials)
  | logonWithSettings
  | logoff
  | execute (request : Request)
  | query (sql : String)
  | cancelRequest (id : Int64)
  | requestBatch (e : Nat) (start count : Int)
  | awaitBatch (timeout : Duration) (handle : Handle)
  | openLob (e : Nat) (reference : LobReference)
  | requestChunk (e : Nat) (stream : UInt64) (reference : LobReference)
  | awaitChunk (timeout : Duration) (handle : Handle)
  | moveCursor (e rounds : Nat) (cursor : Cursor Handle) (asked : Cursor.Call)
  | readStream (e rounds : Nat) (streamer : Streamer Handle) (asked : Streamer.Retrieval)
  | closeStream (e : Nat) (streamer : Streamer Handle)
  | claimClosed (e : Nat) (stream : UInt64)
  | releaseStream (e : Nat) (stream : UInt64) (reference : LobReference)
  | closeExecution (e : Nat)
  | rest (length : Duration)
  | close

/-- A wait as an operation, without the handle that it leaves. -/
def awaitOnce (wait : Session σ → Except Fault α × Handle × Session σ) : Op σ Unit := do
  let (outcome, _, t) := wait (← get)
  set t
  discard (ofExcept outcome)

/-- An exchange as an operation, without the state of the negotiator that it leaves. -/
def runExchange {ν : Type} (exchange : Exchange σ ν α) (state : ν) : Op σ Unit := do
  let (outcome, t, _) := exchange (← get, state)
  set t
  discard (ofExcept outcome)

/-- An attempt as an operation, without what it leaves next to the session. One that is cut short
has no fault. -/
def runAttempt {S : Type} (enter : Session σ → S) (view : S → Session σ) (m : Attempt S α) :
    Op σ Unit := do
  let (outcome, d) := Attempt.exec m (enter (← get))
  set (view d)
  match outcome with
  | .ok _ => return
  | .error .outOfRounds => return
  | .error (.fault fault) => throw fault

/-- The operation behind an act. -/
def Act.perform (link : Link σ) : Act → Op σ Unit
  | .invoke service method args => discard (Session.invoke link service method args)
  | .wait timeout handle => awaitOnce (Session.wait link timeout handle)
  | .abandon handle => modify (Session.abandon handle)
  | .callWithin timeout service method args =>
    discard (Session.callWithin link timeout service method args)
  | .call service method args => discard (Session.call link service method args)
  | .ping => Session.ping link
  | .logon negotiator state credentials =>
    runExchange (Session.logon link negotiator credentials) state
  | .logonWithSettings => discard (Session.logonWithSettings link)
  | .logoff => Session.logoff link
  | .execute request => discard (Session.execute link request)
  | .query sql => discard (Session.query link sql)
  | .cancelRequest id => discard (Session.cancelRequest link id)
  | .requestBatch e start count => discard (Session.requestBatch link e start count)
  | .awaitBatch timeout handle => awaitOnce (waitAs link Value.results timeout handle)
  | .openLob e reference => discard (Session.openLob e reference)
  | .requestChunk e stream reference => discard (Session.requestChunk link e stream reference)
  | .awaitChunk timeout handle => awaitOnce (waitAs link Value.chunk timeout handle)
  | .moveCursor e rounds cursor asked =>
    runAttempt (fun s => ⟨cursor, s, false⟩) Cursor.Desk.source
      (asked.perform (batchSource link e) rounds)
  | .readStream e rounds streamer asked =>
    runAttempt (fun s => ⟨streamer, s⟩) Streamer.Desk.source
      (asked.perform (chunkSource link e) rounds)
  | .closeStream e streamer =>
    runAttempt (fun s => ⟨streamer, s⟩) Streamer.Desk.source
      (Streamer.close (chunkSource link e))
  | .claimClosed e stream => discard (Session.claimClosed e stream)
  | .releaseStream e stream reference => Session.releaseStream link e stream reference
  | .closeExecution e => Session.closeExecution link e
  | .rest length => modify (Session.rest link length)
  | .close => Session.close link

/-- Whether a fault of an act is of its own making, on the client's side of the table of calls. -/
def Act.Own (settings : Settings) (fault : Fault) : Act → Prop
  | .invoke service method args => Unsendable settings service method args fault
  | .wait _ handle => UsedUp handle fault
  | .callWithin _ service method args => Unsendable settings service method args fault
  | .call service method args => Unsendable settings service method args fault
  | .ping => Unsendable settings .logon "ping" [] fault
  | .logon negotiator _ _ => LogonFault settings negotiator fault
  | .logonWithSettings => StepFault settings fault
  | .logoff => Unsendable settings .logon "logoff" [] fault
  | .execute _ => ExecuteFault settings fault
  | .query _ => ExecuteFault settings fault
  | .cancelRequest id => Unsendable settings .dqp "cancelRequest" [.long id] fault
  | .requestBatch .. => ∃ args, Unsendable settings .dqp "processCursorRequest" args fault
  | .awaitBatch _ handle => UsedUp handle fault ∨ Misread Value.results fault
  | .requestChunk .. => ∃ args, Unsendable settings .dqp "requestNextLobChunk" args fault
  | .awaitChunk _ handle => UsedUp handle fault ∨ Misread Value.chunk fault
  | .moveCursor .. => CursorFault settings fault
  | .readStream .. | .closeStream .. => StreamFault settings fault
  | .releaseStream .. => ∃ args, Unsendable settings .dqp "closeLobChunkStream" args fault
  | .closeExecution _ => ∃ args, Unsendable settings .dqp "closeRequest" args fault
  | .abandon _ | .openLob .. | .claimClosed .. | .rest _ | .close => False

/-- The sessions that can be had over a link: one that was opened, after any acts. -/
inductive Reached (link : Link σ) : Session σ → Prop
  | opened {settings : Settings} {state : σ} {s : Session σ}
      (h : connect link settings state = .ok s) : Reached link s
  | after {s : Session σ} (act : Act) (h : Reached link s) :
      Reached link (exec (act.perform link) s).2

section Accounting

variable {settings : Settings} {s : Session σ}

theorem accounted_awaitOnce {wait : Session σ → Except Fault α × Handle × Session σ}
    {Own : Fault → Prop} {Q : α → Prop}
    (h : Accounted settings Own Q ((wait s).1, (wait s).2.2)) :
    Accounted settings Own (fun _ => True) (exec (awaitOnce wait) s) := by
  unfold awaitOnce
  simp only [exec_bind, exec_get]
  generalize wait s = result at h ⊢
  obtain ⟨outcome, after, t⟩ := result
  simp only [exec_set]
  cases h with
  | done ht _ => exact .done ht trivial
  | failed ht h => exact .failed ht h

theorem accounted_runExchange {ν : Type} {exchange : Exchange σ ν α} {state : ν}
    {Own : Fault → Prop} {Q : α → Prop} (h : Accounted settings Own Q (exchange.exec (s, state))) :
    Accounted settings Own (fun _ => True) (exec (runExchange exchange state) s) := by
  unfold runExchange
  simp only [exec_bind, exec_get]
  change Accounted settings Own Q ((exchange (s, state)).1, (exchange (s, state)).2.1) at h
  generalize exchange (s, state) = result at h ⊢
  obtain ⟨outcome, t, n⟩ := result
  simp only [exec_bind, exec_set]
  cases h with
  | done ht _ => exact .done ht trivial
  | failed ht h => exact .failed ht h

theorem accounted_runAttempt {S : Type} {enter : Session σ → S} {view : S → Session σ}
    {m : Attempt S α} {Own : Fault → Prop} (h : Accountable view settings Own m)
    (hs : (view (enter s)).Sound settings) :
    Accounted settings Own (fun _ => True) (exec (runAttempt enter view m) s) := by
  have hend := h (enter s) hs
  unfold runAttempt
  simp only [exec_bind, exec_get]
  generalize Attempt.exec m (enter s) = result at hend ⊢
  cases hend with
  | done hd => exact .done hd trivial
  | cut hd => exact .done hd trivial
  | failed hd h => exact .failed hd h

/-- Every act keeps the table sound and accounts for its faults. -/
theorem accounted_perform (link : Link σ) (act : Act) (hs : s.Sound settings) :
    Accounted settings (fun fault => act.Own settings fault) (fun _ => True)
      (exec (act.perform link) s) := by
  cases act with
  | invoke service method args => exact (accounted_invoke link service method args hs).discard
  | wait timeout handle => exact accounted_awaitOnce (accounted_wait link timeout handle hs)
  | abandon handle => exact .done (hs.abandon handle) trivial
  | callWithin timeout service method args =>
    exact (accounted_callWithin link timeout service method args hs).discard
  | call service method args => exact (accounted_call link service method args hs).discard
  | ping => exact accounted_ping link hs
  | logon negotiator state credentials =>
    -- unfolded first, or the rounds of the exchange are unfolded to find it
    rw [Act.perform]
    exact accounted_runExchange (accounted_logon link negotiator credentials state hs)
  | logonWithSettings => exact (accounted_logonWithSettings link hs).discard
  | logoff => exact accounted_logoff link hs
  | execute request => exact (accounted_execute link request hs).discard
  | query sql => exact (accounted_query link sql hs).discard
  | cancelRequest id => exact (accounted_cancelRequest link id hs).discard
  | requestBatch e start count => exact (accounted_requestBatch link e start count hs).discard
  | awaitBatch timeout handle =>
    rw [Act.perform]
    exact accounted_awaitOnce (accounted_waitAs link _ timeout handle hs)
  | openLob e reference => exact (accounted_openLob e reference hs).discard
  | requestChunk e stream reference =>
    exact (accounted_requestChunk link e stream reference hs).discard
  | awaitChunk timeout handle =>
    rw [Act.perform]
    exact accounted_awaitOnce (accounted_waitAs link _ timeout handle hs)
  | moveCursor e rounds cursor asked =>
    rw [Act.perform]
    exact accounted_runAttempt (Navigates.call asked) hs
  | readStream e rounds streamer asked =>
    rw [Act.perform]
    exact accounted_runAttempt (Streams.retrieve asked) hs
  | closeStream e streamer =>
    rw [Act.perform]
    exact accounted_runAttempt Streams.close hs
  | claimClosed e stream => exact (accounted_claimClosed e stream hs).discard
  | releaseStream e stream reference => exact accounted_releaseStream link e stream reference hs
  | closeExecution e => exact accounted_closeExecution link e hs
  | rest length => exact .done (hs.restUntil link _ _) trivial
  | close => exact accounted_close link hs

end Accounting

theorem exists_of_bind_eq_ok {β γ : Type} {x : Except Fault β} {f : β → Except Fault γ} {c : γ}
    (h : x >>= f = .ok c) : ∃ b, x = .ok b ∧ f b = .ok c := by
  cases x with
  | error fault => cases h
  | ok b => exact ⟨b, rfl, h⟩

/-- An open session has taken in nothing but what came after the handshake. -/
theorem connect_eq_ok {link : Link σ} {settings : Settings} {state : σ} {s : Session σ}
    (h : connect link settings state = .ok s) :
    ∃ server flow after, s = (start settings server after).takeIn flow := by
  obtain ⟨_, -, h⟩ := exists_of_bind_eq_ok h
  obtain ⟨⟨first, flow, after⟩, -, h⟩ := exists_of_bind_eq_ok h
  obtain ⟨server, -, h⟩ := exists_of_bind_eq_ok h
  obtain ⟨_, -, h⟩ := exists_of_bind_eq_ok h
  obtain ⟨frame, -, h⟩ := exists_of_bind_eq_ok h
  exact ⟨server, flow, link.send frame after, (Except.ok.inj h).symm⟩

theorem Reached.sound {link : Link σ} {s : Session σ} (h : Reached link s) :
    s.Sound s.settings := by
  induction h with
  | @opened settings state s h =>
    obtain ⟨server, flow, after, rfl⟩ := connect_eq_ok h
    have hs : (start settings server after).Sound settings := ⟨rfl, sound_empty⟩
    exact ⟨rfl, (hs.takeIn flow).calls⟩
  | @after s act _ hs => exact ⟨rfl, (accounted_perform link act hs).sound.calls⟩

/-! ## Runs over a script -/

/-- A link whose state is what the server will say, a piece whenever the client listens. -/
def scriptedLink : Link Inflow where
  now _ := 0
  accepts _ := true
  send _ flow := flow
  await _ flow :=
    match flow.pieces with
    | [] => (⟨[], flow.ending⟩, flow)
    | piece :: rest => (⟨[piece], .quiet⟩, ⟨rest, flow.ending⟩)
  shutDown := id

/-- The session after some acts. -/
def runActs (link : Link σ) (acts : List Act) (s : Session σ) : Session σ :=
  acts.foldl (fun s act => (exec (act.perform link) s).2) s

theorem Reached.runActs {link : Link σ} {s : Session σ} (h : Reached link s) (acts : List Act) :
    Reached link (runActs link acts s) := by
  induction acts generalizing s with
  | nil => exact h
  | cons act rest ih => exact ih (h.after act)

/-- Whether an act fails fatally in a session over what the server says and after some other acts,
and a check passes of the session before and after. -/
def failsFatally (said : Inflow) (before : List Act) (act : Act)
    (check : Session Inflow → Session Inflow → Bool) : Bool :=
  match connect scriptedLink Settings.standard said with
  | .error _ => false
  | .ok opened =>
    let s := runActs scriptedLink before opened
    match exec (act.perform scriptedLink) s with
    | (.error fault, t) => fault.isFatal && check s t
    | (.ok _, _) => false

theorem exists_of_failsFatally {said : Inflow} {before : List Act} {act : Act}
    {check : Session Inflow → Session Inflow → Bool}
    (h : failsFatally said before act check = true) :
    ∃ s t fault, Reached scriptedLink s ∧
      exec (act.perform scriptedLink) s = (.error fault, t) ∧ fault.isFatal = true ∧
      check s t = true := by
  unfold failsFatally at h
  split at h
  · cases h
  · rename_i opened hopened
    dsimp only at h
    split at h
    · rename_i fault t hend
      obtain ⟨hfatal, hcheck⟩ := Bool.and_eq_true_iff.1 h
      exact ⟨_, t, fault, (Reached.opened hopened).runActs before, hend, hfatal, hcheck⟩
    · cases h

/-- The bytes of a message. -/
def framed (m : Message) : Bytes :=
  (Frame.encode Settings.standard.encoding m).toOption.getD []

/-- A server that greets the client, says some more, and then falls quiet or hangs up. -/
def greetedBy (replies : List Message) (ending : FlowEnd) : Inflow :=
  ⟨(.handshake Handshake.client :: replies).map framed, ending⟩

/-! ## Fatal faults -/

/-- **A fatal fault ends the session**, unless the act that returns it made the fault itself. In a
session that was opened over any link and used in any way, once an act fails fatally with anything
else the session is lost for one reason, over which the act has failed. No call waits then: each has
been answered before, or fails with the lost connection, or had the reply that ended the session. -/
theorem fatal_fault_ends {link : Link σ} {s t : Session σ} {act : Act} {fault : Fault}
    (hreached : Reached link s) (hend : exec (act.perform link) s = (.error fault, t))
    (hfatal : fault.isFatal = true) :
    act.Own s.settings fault ∨
      ∃ reason, t.isClosed = true ∧ t.calls.shutdown = some (.lost reason) ∧
        (∃ key, FailedBy key (.lost reason) fault) ∧ t.calls.waiting = [] ∧
        ∀ key, (∃ reply, t.calls.outcome? key = some (.ok reply)) ∨
          ∃ cause, t.calls.outcome? key = some (.error cause) ∧
            FailedBy key (.lost reason) cause := by
  have haccounted := accounted_perform link act hreached.sound
  rw [hend] at haccounted
  cases haccounted with
  | failed ht h =>
    refine (h hfatal).imp_right ?_
    rintro ⟨reason, key, hlost, hfailed⟩
    refine ⟨reason, ?_, hlost, ⟨key, hfailed⟩, ht.calls.quiet _ hlost, fun other =>
      ht.calls.outcome_of_shutDown hlost other⟩
    rw [isClosed, isShutDown, hlost, Option.isSome_some]

/-- The server hangs up on two calls, and the wait for the first ends the second. -/
theorem fatal_fault_ends_hangUp :
    ∃ s t fault, Reached scriptedLink s ∧
      exec ((Act.wait (.seconds 1) ⟨1, "ping", false⟩).perform scriptedLink) s =
        (.error fault, t) ∧
      fault.isFatal = true ∧ 2 ∈ s.calls.waiting ∧
      ∃ reason, t.isClosed = true ∧ t.calls.waiting = [] ∧
        ((∃ reply, t.calls.outcome? 2 = some (.ok reply)) ∨
          ∃ cause, t.calls.outcome? 2 = some (.error cause) ∧
            FailedBy 2 (.lost reason) cause) := by
  have hping : failsFatally (greetedBy [] .closed)
      [.invoke .logon "ping" [], .invoke .logon "ping" []]
      (.wait (.seconds 1) ⟨1, "ping", false⟩) (fun s _ => s.calls.waiting.contains 2) = true := by
    decide +kernel
  obtain ⟨s, t, fault, hreached, hend, hfatal, hwaits⟩ := exists_of_failsFatally hping
  refine ⟨s, t, fault, hreached, hend, hfatal, by simpa using hwaits, ?_⟩
  rcases fatal_fault_ends hreached hend hfatal with hown | ⟨reason, hclosed, -, -, hquiet, houtcome⟩
  · exact absurd hown.1 (by decide)
  · exact ⟨reason, hclosed, hquiet, houtcome 2⟩

/-- **A reply of the wrong kind leaves the session as it is**: a query is answered with null, which
is a fatal fault, but the session is not closed and a call made before goes on waiting. -/
theorem wrong_kind_outlived :
    ∃ s t fault, Reached scriptedLink s ∧
      exec ((Act.query "SELECT 1").perform scriptedLink) s = (.error fault, t) ∧
      fault.isFatal = true ∧ t.isClosed = false ∧
      1 ∈ s.calls.waiting ∧ t.calls.outcome? 1 = none := by
  have hquery : failsFatally (greetedBy [.reply (nullReply 2)] .quiet) [.invoke .logon "ping" []]
      (.query "SELECT 1")
      (fun s t => !t.isClosed && s.calls.waiting.contains 1 && (t.calls.outcome? 1).isNone) =
        true := by
    decide +kernel
  obtain ⟨s, t, fault, hreached, hend, hfatal, hcheck⟩ := exists_of_failsFatally hquery
  obtain ⟨⟨hopen, hwaits⟩, hnone⟩ : (t.isClosed = false ∧ 1 ∈ s.calls.waiting) ∧
      t.calls.outcome? 1 = none := by
    simpa using hcheck
  exact ⟨s, t, fault, hreached, hend, hfatal, hopen, hwaits, hnone⟩

end QueryClient.Session
