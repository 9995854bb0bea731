import QueryClient.Proofs.Session.Failures
import QueryClient.Session.Logon
import QueryClient.Session.ResultSet

/-!
# Accounting for faults

Each operation of a session keeps the table of calls sound and accounts for what it fails with: the
fault is not fatal, or the session is lost and that is why, or the fault is of the operation's own
making, on the client's side of the table. The last is the case for a call that cannot be encoded,
for a reply of another kind than is wanted, for a handle that is used up, and for a negotiator that
gives no token.
-/

namespace QueryClient

theorem Fault.isFatal_of_isTimeout {fault : Fault} (h : fault.isTimeout = true) :
    fault.isFatal = false := by
  unfold Fault.isTimeout at h
  split at h
  · rfl
  · cases h

namespace Session

open Calls

variable {σ ν α β : Type} {settings : Settings} {s t : Session σ} {fault : Fault}

/-! ## What a session keeps -/

/-- A session that runs with some settings and has a sound table of calls. -/
structure Sound (settings : Settings) (s : Session σ) : Prop where
  same : s.settings = settings
  calls : s.calls.Sound

theorem Sound.forget (hs : s.Sound settings) (key : UInt64) :
    ({ s with calls := s.calls.forget key } : Session σ).Sound settings :=
  ⟨hs.same, hs.calls.forget key⟩

theorem Sound.abandon (hs : s.Sound settings) (handle : Handle) :
    (s.abandon handle).Sound settings := by
  unfold Session.abandon
  split
  · exact hs
  · exact hs.forget handle.key

theorem shutdown_abandon (handle : Handle) (s : Session σ) :
    (s.abandon handle).calls.shutdown = s.calls.shutdown := by
  unfold abandon
  split <;> rfl

theorem Sound.takeIn (hs : s.Sound settings) (news : Inflow) : (s.takeIn news).Sound settings := by
  unfold Session.takeIn
  split
  · exact ⟨hs.same, hs.calls.receiveAll _⟩
  · exact hs

theorem Sound.listen (link : Link σ) (hs : s.Sound settings) (moment : Instant) :
    (listen link moment s).Sound settings := by
  have htime : ({ s with link := (link.await moment s.link).2 } : Session σ).Sound settings :=
    ⟨hs.same, hs.calls⟩
  exact htime.takeIn _

theorem Sound.restUntil (link : Link σ) (moment : Instant) (looks : Nat) (hs : s.Sound settings) :
    (restUntil link moment looks s).Sound settings := by
  induction looks generalizing s with
  | zero => exact hs
  | succ looks ih =>
    rw [Session.restUntil]
    split
    · exact hs
    · exact ih (hs.listen link moment)

/-- Whether the session is lost, in a way in which a call may fail with this fault. -/
def LostOver (fault : Fault) (s : Session σ) : Prop :=
  ∃ reason key, s.calls.shutdown = some (.lost reason) ∧ FailedBy key (.lost reason) fault

theorem LostOver.congr (h : s.LostOver fault) (hcause : t.calls.shutdown = s.calls.shutdown) :
    t.LostOver fault := by
  obtain ⟨reason, key, hlost, hfailed⟩ := h
  exact ⟨reason, key, hcause.trans hlost, hfailed⟩

theorem lostOver_of_failedBy (key : UInt64) {cause : Shutdown}
    (hcause : s.calls.shutdown = some cause) (h : FailedBy key cause fault)
    (hfatal : fault.isFatal = true) : s.LostOver fault := by
  obtain ⟨reason, rfl⟩ := h.lost_of_fatal hfatal
  exact ⟨reason, key, hcause, h⟩

/-- What calls fail with after the shutdown, and before it as well, is fatal only if the session is
lost. -/
theorem lostOver_of_shutdownFault (hfatal : s.calls.shutdownFault.isFatal = true) :
    s.LostOver s.calls.shutdownFault := by
  cases hcause : s.calls.shutdown with
  | none =>
    rw [shutdownFault, hcause] at hfatal
    exact absurd hfatal (by decide)
  | some cause =>
    refine lostOver_of_failedBy 0 hcause ?_ hfatal
    rw [shutdownFault, hcause]
    exact .swept cause

/-! ## How operations account for their faults -/

/-- How an operation ends in a sound session: with a result that has some property, or with a fault
that is not fatal, or of its own making, or one that the session is lost over. -/
inductive Accounted (settings : Settings) (Own : Fault → Prop) (Q : α → Prop) :
    Except Fault α × Session σ → Prop
  | done {a : α} {t : Session σ} (sound : t.Sound settings) (h : Q a) :
      Accounted settings Own Q (.ok a, t)
  | failed {fault : Fault} {t : Session σ} (sound : t.Sound settings)
      (h : fault.isFatal = true → Own fault ∨ t.LostOver fault) :
      Accounted settings Own Q (.error fault, t)

namespace Accounted

variable {Own Own' : Fault → Prop} {Q : α → Prop} {R : β → Prop}

theorem sound {result : Except Fault α × Session σ} (h : Accounted settings Own Q result) :
    result.2.Sound settings := by
  cases h with
  | done sound h => exact sound
  | failed sound h => exact sound

theorem imp_own {result : Except Fault α × Session σ} (h : Accounted settings Own Q result)
    (hown : ∀ fault, Own fault → Own' fault) : Accounted settings Own' Q result := by
  cases h with
  | done sound h => exact .done sound h
  | failed sound h => exact .failed sound fun hfatal => (h hfatal).imp_left (hown _)

theorem harmless (hs : s.Sound settings) (h : fault.isFatal = false) :
    Accounted settings Own Q (.error fault, s) := by
  refine .failed hs fun hfatal => ?_
  rw [h] at hfatal
  cases hfatal

theorem of_none {result : Except Fault α × Session σ}
    (h : Accounted settings (fun _ => False) Q result) : Accounted settings Own Q result :=
  h.imp_own fun _ => False.elim

theorem bind {op : Op σ α} {f : α → Op σ β} (h : Accounted settings Own Q (exec op s))
    (hf : ∀ a t, t.Sound settings → Q a → Accounted settings Own R (exec (f a) t)) :
    Accounted settings Own R (exec (op >>= f) s) := by
  rw [exec_bind]
  generalize exec op s = result at h
  cases h with
  | done sound h => exact hf _ _ sound h
  | failed sound h => exact .failed sound h

theorem tryCatch {op : Op σ α} {handler : Fault → Op σ α}
    (h : Accounted settings Own Q (exec op s))
    (hcatch : ∀ fault t, t.Sound settings →
      (fault.isFatal = true → Own fault ∨ t.LostOver fault) →
      Accounted settings Own' Q (exec (handler fault) t)) :
    Accounted settings Own' Q (exec (tryCatch op handler) s) := by
  rw [exec_tryCatch]
  generalize exec op s = result at h
  cases h with
  | done sound h => exact .done sound h
  | failed sound h => exact hcatch _ _ sound h

theorem ofExcept {outcome : Except Fault α} (hs : s.Sound settings)
    (hok : ∀ a, outcome = .ok a → Q a)
    (herror : ∀ fault, outcome = .error fault → fault.isFatal = true → Own fault) :
    Accounted settings Own Q (exec (ofExcept outcome) s) := by
  rw [exec_ofExcept]
  cases outcome with
  | ok a => exact .done hs (hok a rfl)
  | error fault => exact .failed hs fun hfatal => .inl (herror fault rfl hfatal)

theorem discard {op : Op σ α} (h : Accounted settings Own Q (exec op s)) :
    Accounted settings Own (fun _ => True) (exec (discard op) s) :=
  h.bind fun _ _ ht _ => .done ht trivial

/-- A fault that is swallowed does not matter, fatal or not. -/
theorem swallow {op : Op σ α} (h : Accounted settings Own Q (exec op s)) :
    Accounted settings Own' (fun _ => True)
      (exec (MonadExcept.tryCatch (Functor.discard op) fun _ => return) s) :=
  tryCatch h.discard fun _ _ ht _ => .done ht trivial

/-- Giving up a handle takes nothing back. -/
theorem abandon {outcome : Except Fault α} (h : Accounted settings Own Q (outcome, s))
    (handle : Handle) : Accounted settings Own Q (outcome, s.abandon handle) := by
  cases h with
  | done hs h => exact .done (hs.abandon handle) h
  | failed hs h =>
    refine .failed (hs.abandon handle) fun hfatal => (h hfatal).imp_right fun hlost => ?_
    exact hlost.congr (shutdown_abandon handle s)

end Accounted

/-! ## Calls -/

/-- Whether a call fails because it cannot be encoded. -/
def Unsendable (settings : Settings) (service : Service) (method : String) (args : List Value)
    (fault : Fault) : Prop :=
  ∃ key, Frame.encode settings.encoding (.invocation ⟨key, service, method, args⟩) = .error fault

/-- Whether a handle is waited for after its outcome has been picked up. -/
def UsedUp (handle : Handle) (fault : Fault) : Prop :=
  handle.finished = true ∧ fault = .protocol (.replyConsumed handle.method)

/-- Whether some value cannot be taken for what a caller wants. -/
def Misread (take : Value → Except Fault α) (fault : Fault) : Prop :=
  ∃ value, take value = .error fault

/-- Whether a value agrees with itself, if it holds rows. -/
def Agrees (value : Value) : Prop :=
  ∀ batch, value = .message (.results batch) → batch.validate = .ok ()

theorem accounted_nextKey (hs : s.Sound settings) :
    Accounted settings (fun _ => False) (fun _ => True) (exec nextKey s) :=
  .done ⟨hs.same, hs.calls⟩ trivial

theorem accounted_register (key : UInt64) (hs : s.Sound settings) :
    Accounted settings (fun _ => False) (fun _ => True) (exec (register key) s) := by
  rw [exec_register]
  rcases Option.eq_none_or_eq_some s.calls.shutdown with hopen | ⟨cause, hcause⟩
  · rw [register_of_open hopen]
    exact .done ⟨hs.same, hs.calls.register (register_of_open hopen key)⟩ trivial
  · rw [register_of_shutDown hcause]
    exact .failed hs fun hfatal =>
      .inr (lostOver_of_failedBy key hcause (.swept cause) hfatal)

theorem accounted_send (link : Link σ) (m : Message) (hs : s.Sound settings) :
    Accounted settings (fun fault => Frame.encode settings.encoding m = .error fault)
      (fun _ => True) (exec (send link m) s) := by
  rw [send, exec_bind, exec_get]
  simp only [exec_bind, exec_ofExcept]
  cases hframe : Frame.encode s.settings.encoding m with
  | error fault => exact .failed hs fun _ => .inl (hs.same ▸ hframe)
  | ok frame =>
    by_cases haccepts : link.accepts s.link = true
    · simp only [haccepts, if_true]
      exact .done ⟨hs.same, hs.calls⟩ trivial
    · simp only [haccepts, Bool.false_eq_true, if_false]
      exact .failed hs fun hfatal => .inr (lostOver_of_shutdownFault hfatal)

theorem accounted_invoke (link : Link σ) (service : Service) (method : String) (args : List Value)
    (hs : s.Sound settings) :
    Accounted settings (Unsendable settings service method args)
      (fun handle => handle.finished = false) (exec (invoke link service method args) s) := by
  unfold invoke
  refine .bind (accounted_nextKey hs).of_none fun key t ht _ => ?_
  refine .bind (accounted_register key ht).of_none fun _ u hu _ => ?_
  simp only [exec_tryCatch, exec_bind, exec_modify, exec_throw]
  have hsend := accounted_send link (.invocation ⟨key, service, method, args⟩) hu
  generalize exec (send link (.invocation ⟨key, service, method, args⟩)) u = result at hsend ⊢
  cases hsend with
  | done hv _ => exact .done hv rfl
  | failed hv h =>
    refine .abandon (.failed hv fun hfatal => ?_) _
    exact (h hfatal).imp_left fun hframe => ⟨key, hframe⟩

/-- What an outcome comes to is accounted for by the table that had it. -/
theorem accounted_conclude {key : UInt64} {outcome : Except Fault Reply} {Own : Fault → Prop}
    (hs : s.Sound settings) (h : s.calls.outcome? key = some outcome) :
    Accounted settings Own Agrees
      (conclude outcome, { s with calls := s.calls.forget key }) := by
  cases outcome with
  | error fault =>
    refine .failed (hs.forget key) fun hfatal => .inr ?_
    rcases hs.calls.failed_of_outcome? h with ⟨-, rfl⟩ | ⟨cause, hcause, hfailed⟩
    · exact absurd hfatal (by decide)
    · exact lostOver_of_failedBy key hcause hfailed hfatal
  | ok reply =>
    have hvalid : reply.validate = .ok () := hs.calls.agrees_of_outcome? h
    rw [conclude]
    cases houtcome : reply.outcome with
    | error exception => exact .harmless (hs.forget key) rfl
    | ok value =>
      refine .done (hs.forget key) fun batch hbatch => ?_
      rwa [Reply.validate, houtcome, hbatch] at hvalid

theorem accounted_wait (link : Link σ) (timeout : Duration) (handle : Handle)
    (hs : s.Sound settings) :
    Accounted settings (UsedUp handle) Agrees
      ((s.wait link timeout handle).1, (s.wait link timeout handle).2.2) := by
  cases hfinished : handle.finished with
  | true =>
    rw [wait, if_pos hfinished]
    exact .failed hs fun _ => .inl ⟨hfinished, rfl⟩
  | false =>
    have hawaited : Awaited (Sound settings) timeout handle (s.wait link timeout handle) :=
      awaited_wait (fun t ht moment => ht.listen link moment) timeout hfinished hs
    generalize s.wait link timeout handle = result at hawaited ⊢
    cases hawaited with
    | answered ht h => exact accounted_conclude ht h
    | timedOut ht => exact .harmless ht rfl

/-- What is taken from a reply is taken from a value that agrees with itself. -/
theorem accounted_waitAs (link : Link σ) (take : Value → Except Fault α) (timeout : Duration)
    (handle : Handle) (hs : s.Sound settings) :
    Accounted settings (fun fault => UsedUp handle fault ∨ Misread take fault)
      (fun a => ∃ value, Agrees value ∧ take value = .ok a)
      ((waitAs link take timeout handle s).1, (waitAs link take timeout handle s).2.2) := by
  have hwait := accounted_wait link timeout handle hs
  unfold waitAs
  generalize s.wait link timeout handle = result at hwait ⊢
  obtain ⟨outcome, after, t⟩ := result
  cases hwait with
  | failed ht h => exact .failed ht fun hfatal => (h hfatal).imp_left .inl
  | @done value _ ht hagrees =>
    change Accounted settings _ _ (take value, t)
    cases htake : take value with
    | ok a => exact .done ht ⟨value, hagrees, htake⟩
    | error fault => exact .failed ht fun _ => .inl (.inr ⟨value, htake⟩)

/-- A wait with a new handle, which is given up then, has no faults of its own. -/
theorem accounted_waitOnce (link : Link σ) (timeout : Duration) {handle : Handle}
    (hopen : handle.finished = false) (hs : s.Sound settings) :
    Accounted settings (fun _ => False) Agrees ((s.wait link timeout handle).1,
      (s.wait link timeout handle).2.2.abandon (s.wait link timeout handle).2.1) := by
  refine ((accounted_wait link timeout handle hs).imp_own fun fault hused => ?_).abandon _
  have hfinished : handle.finished = true := hused.1
  rw [hopen] at hfinished
  cases hfinished

theorem accounted_callWithin (link : Link σ) (timeout : Duration) (service : Service)
    (method : String) (args : List Value) (hs : s.Sound settings) :
    Accounted settings (Unsendable settings service method args) Agrees
      (exec (callWithin link timeout service method args) s) := by
  unfold callWithin
  refine .bind (accounted_invoke link service method args hs) fun handle t ht hopen => ?_
  have hwait := accounted_waitOnce link timeout hopen ht
  simp only [exec_bind, exec_get]
  generalize t.wait link timeout handle = result at hwait ⊢
  obtain ⟨outcome, after, u⟩ := result
  simp only [exec_set, exec_ofExcept]
  exact hwait.of_none

theorem accounted_call (link : Link σ) (service : Service) (method : String) (args : List Value)
    (hs : s.Sound settings) :
    Accounted settings (Unsendable settings service method args) Agrees
      (exec (call link service method args) s) := by
  rw [call, exec_bind, exec_get]
  exact accounted_callWithin link _ service method args hs

theorem accounted_ping (link : Link σ) (hs : s.Sound settings) :
    Accounted settings (Unsendable settings .logon "ping" []) (fun _ => True)
      (exec (ping link) s) :=
  .bind (accounted_call link .logon "ping" [] hs) fun _ _ ht _ => .done ht trivial

theorem accounted_logoff (link : Link σ) (hs : s.Sound settings) :
    Accounted settings (Unsendable settings .logon "logoff" []) (fun _ => True)
      (exec (logoff link) s) :=
  .bind (accounted_call link .logon "logoff" [] hs) fun _ _ ht _ =>
    .done ⟨ht.same, ht.calls⟩ trivial

theorem accounted_close (link : Link σ) (hs : s.Sound settings) :
    Accounted settings (fun _ => False) (fun _ => True) (exec (close link) s) := by
  unfold close
  rw [exec_bind, exec_get]
  dsimp only
  split
  · exact .done hs trivial
  · rw [exec_bind, exec_get]
    dsimp only
    split
    · exact .bind (accounted_callWithin link logoffTimeout .logon "logoff" [] hs).swallow
        fun _ _ ht _ => .done ⟨ht.same, ht.calls.shutDown _⟩ trivial
    · exact .done ⟨hs.same, hs.calls.shutDown _⟩ trivial

/-! ## Logging on -/

/-- Whether a negotiator gives no token. -/
def Tokenless (negotiator : Option (Negotiator ν)) (fault : Fault) : Prop :=
  ∃ n ∈ negotiator, ∃ state, (n.initial state).1 = .error fault ∨
    ∃ challenge, (n.next challenge state).1 = .error fault

theorem tokenless_none : ¬ Tokenless (none : Option (Negotiator ν)) fault := by
  rintro ⟨n, hn, -⟩
  cases hn

/-- What a step of a logon may fail with by itself. -/
def StepFault (settings : Settings) (fault : Fault) : Prop :=
  (∃ method args, Unsendable settings .logon method args fault) ∨ Misread Value.logonResult fault

theorem accounted_logonStep (link : Link σ) (method : String) (arg : Value)
    (hs : s.Sound settings) :
    Accounted settings (StepFault settings) (fun _ => True)
      (exec (logonStep link method arg) s) := by
  have hcall : Accounted settings (StepFault settings) Agrees
      (exec (call link .logon method [arg]) s) :=
    (accounted_call link .logon method [arg] hs).imp_own fun _ h => .inl ⟨method, [arg], h⟩
  unfold logonStep
  refine .bind (.tryCatch hcall fun fault t ht h => ?_) fun value t ht _ => ?_
  · split
    · exact .harmless ht rfl
    · exact .failed ht h
  · exact .ofExcept ht (fun _ _ => trivial) fun fault h _ => .inr ⟨value, h⟩

/-- The outcome of an exchange, and the session it leaves. -/
def Exchange.exec (m : Exchange σ ν α) (p : Session σ × ν) : Except Fault α × Session σ :=
  ((m.run.run p).1, (m.run.run p).2.1)

theorem Accounted.exchange {Own : Fault → Prop} {Q : α → Prop} {R : β → Prop}
    {m : Exchange σ ν α} {f : α → Exchange σ ν β} {p : Session σ × ν}
    (h : Accounted settings Own Q (m.exec p))
    (hf : ∀ a t n, t.Sound settings → Q a → Accounted settings Own R ((f a).exec (t, n))) :
    Accounted settings Own R ((m >>= f).exec p) := by
  unfold Exchange.exec at h ⊢
  simp only [ExceptT.run_bind, StateT.run_bind]
  generalize m.run.run p = result at h ⊢
  obtain ⟨outcome, t, n⟩ := result
  cases h with
  | done ht h => exact hf _ t n ht h
  | failed ht h => exact .failed ht h

/-- What a logon may fail with by itself. -/
def LogonFault (settings : Settings) (negotiator : Option (Negotiator ν)) (fault : Fault) : Prop :=
  StepFault settings fault ∨ Tokenless negotiator fault

theorem accounted_onNegotiator {op : ν → Except Fault Bytes × ν} {state : ν} {Own : Fault → Prop}
    (hs : s.Sound settings) (h : ∀ fault, (op state).1 = .error fault → Own fault) :
    Accounted settings Own (fun _ => True) ((onNegotiator op).exec (s, state)) := by
  change Accounted settings Own _ ((op state).1, s)
  cases htoken : (op state).1 with
  | ok token => exact .done hs trivial
  | error fault => exact .failed hs fun _ => .inl (h fault htoken)

theorem accounted_presented (negotiator : Option (Negotiator ν)) (credentials : Credentials)
    (state : ν) (hs : s.Sound settings) :
    Accounted settings (LogonFault settings negotiator) (fun _ => True)
      ((presented negotiator credentials).exec (s, state)) := by
  unfold presented
  split
  · cases negotiator with
    | none => exact .harmless hs rfl
    | some n =>
      refine .exchange (accounted_onNegotiator hs fun fault h => ?_) fun _ _ _ ht _ =>
        .done ht trivial
      exact .inr ⟨n, rfl, state, .inl h⟩
  · exact .done hs trivial

theorem accounted_answerChallenges (link : Link σ) (negotiator : Option (Negotiator ν))
    (rounds : Nat) (answer : LogonResult) (state : ν) (hs : s.Sound settings) :
    Accounted settings (LogonFault settings negotiator) (fun _ => True)
      ((answerChallenges link negotiator rounds answer).exec (s, state)) := by
  induction rounds generalizing answer s state with
  | zero =>
    unfold answerChallenges
    cases answer.continuation with
    | none => exact .done hs trivial
    | some challenge => exact .harmless hs rfl
  | succ rounds ih =>
    unfold answerChallenges
    cases answer.continuation with
    | none => exact .done hs trivial
    | some challenge =>
      cases negotiator with
      | none => exact .harmless hs rfl
      | some n =>
        refine .exchange (accounted_onNegotiator hs fun fault h => ?_) fun token t later ht _ => ?_
        · exact .inr ⟨n, rfl, state, .inr ⟨challenge, h⟩⟩
        · refine .exchange (Q := fun _ => True) ?_ fun next u last hu _ => ih next last hu
          exact (accounted_logonStep link "continueLogon" (.binary token) ht).imp_own fun _ => .inl

theorem accounted_logon (link : Link σ) (negotiator : Option (Negotiator ν))
    (credentials : Credentials) (state : ν) (hs : s.Sound settings) :
    Accounted settings (LogonFault settings negotiator) (fun _ => True)
      ((logon link negotiator credentials).exec (s, state)) := by
  unfold logon
  refine .exchange (accounted_presented negotiator credentials state hs) fun request t n ht _ => ?_
  refine .exchange (Q := fun _ => True) ?_ fun first u n hu _ => ?_
  · exact (accounted_logonStep link "logon" (.message (.logonRequest request)) ht).imp_own
      fun _ => .inl
  · refine .exchange (accounted_answerChallenges link negotiator maxLogonRounds first n hu)
      fun last v n hv _ => ?_
    exact .done ⟨hv.same, hv.calls⟩ trivial

theorem accounted_logonWithSettings (link : Link σ) (hs : s.Sound settings) :
    Accounted settings (StepFault settings) (fun _ => True) (exec (logonWithSettings link) s) := by
  unfold logonWithSettings
  rw [exec_bind, exec_get]
  dsimp only
  cases s.settings.credentials with
  | none => exact .harmless hs rfl
  | some credentials =>
    have hlogon := accounted_logon link (none : Option (Negotiator Unit)) credentials () hs
    change Accounted settings _ _ ((logon link none credentials (s, ())).1,
      (logon link none credentials (s, ())).2.1) at hlogon
    simp only [exec_bind, exec_get]
    generalize logon link (none : Option (Negotiator Unit)) credentials (s, ()) = result
      at hlogon ⊢
    obtain ⟨outcome, t, ⟨⟩⟩ := result
    simp only [exec_bind, exec_set, exec_ofExcept]
    exact hlogon.imp_own fun _ h => h.resolve_right tokenless_none

/-! ## Executions -/

theorem accounted_cancelRequest (link : Link σ) (id : Int64) (hs : s.Sound settings) :
    Accounted settings (Unsendable settings .dqp "cancelRequest" [.long id]) (fun _ => True)
      (exec (cancelRequest link id) s) :=
  .bind (accounted_call link .dqp "cancelRequest" [.long id] hs) fun _ _ ht _ => .done ht trivial

theorem accounted_beginExecution (id : Int64) (hs : s.Sound settings) :
    Accounted settings (fun _ => False) (fun _ => True) (exec (beginExecution id) s) :=
  .done ⟨hs.same, hs.calls⟩ trivial

/-- What executing a request may fail with by itself. -/
def ExecuteFault (settings : Settings) (fault : Fault) : Prop :=
  (∃ args, Unsendable settings .dqp "executeRequest" args fault) ∨ Misread Value.results fault

theorem eq_message_of_results {value : Value} {batch : Results} (h : value.results = .ok batch) :
    value = .message (.results batch) := by
  unfold Value.results at h
  split at h
  · rw [Except.ok.inj h]
  · cases h

/-- Rows that agree with themselves are no reason for a cursor not to start. -/
theorem start_eq_error {H : Type} {options : Cursor.Options} {first : Results}
    (hvalid : first.validate = .ok ()) (h : Cursor.start (H := H) options first = .error fault) :
    fault = .configuration .noFetchSize := by
  unfold Cursor.start at h
  split at h
  · exact (Except.error.inj h).symm
  · rw [Cursor.absorb, hvalid] at h
    cases h

theorem accounted_execute (link : Link σ) (request : Request) (hs : s.Sound settings) :
    Accounted settings (ExecuteFault settings) (fun _ => True) (exec (execute link request) s) := by
  unfold execute
  refine .bind ((accounted_invoke link .dqp "executeRequest" _ hs).imp_own
    fun _ h => .inl ⟨_, h⟩) fun handle t ht hopen => ?_
  simp only [exec_bind, exec_get]
  have hwait := accounted_waitOnce link (request.queryTimeout.getD t.settings.callTimeout) hopen ht
  generalize t.wait link (request.queryTimeout.getD t.settings.callTimeout) handle = result
    at hwait ⊢
  obtain ⟨outcome, after, u⟩ := result
  simp only [exec_set]
  dsimp only at hwait
  generalize u.abandon after = v at hwait ⊢
  cases hwait with
  | @failed fault _ hv hlost =>
    dsimp only
    split
    · rename_i htimeout
      refine .bind (accounted_cancelRequest link request.executionId hv).swallow
        fun _ w hw _ => .harmless hw ?_
      exact Fault.isFatal_of_isTimeout (Bool.and_eq_true_iff.1 htimeout).1
    · exact .of_none (.failed hv hlost)
  | @done value _ hv hagrees =>
    dsimp only
    refine .bind (.ofExcept hv (fun batch hbatch => ?_) fun fault h _ => .inr ⟨value, h⟩)
      fun first w hw (hfirst : first.validate = .ok ()) => ?_
    · exact hagrees batch (eq_message_of_results hbatch)
    · rw [exec_bind, exec_get]
      refine .bind (.ofExcept hw (fun _ _ => trivial) fun fault h hfatal => ?_) fun cursor x hx _ =>
        .bind (accounted_beginExecution request.executionId hx).of_none fun _ _ hy _ =>
          .done hy trivial
      rw [start_eq_error hfirst h] at hfatal
      exact absurd hfatal (by decide)

theorem accounted_query (link : Link σ) (sql : String) (hs : s.Sound settings) :
    Accounted settings (ExecuteFault settings) (fun _ => True) (exec (query link sql) s) := by
  have hnew : Accounted settings (ExecuteFault settings) (fun _ => True)
      (exec (newRequest sql) s) := .done ⟨hs.same, hs.calls⟩ trivial
  exact hnew.bind fun request _ ht _ => accounted_execute link request ht

/-! ## Batches, chunks and streams -/

theorem accounted_ensureExecutionOpen (e : Nat) (hs : s.Sound settings) :
    Accounted settings (fun _ => False) (fun _ => True) (exec (ensureExecutionOpen e) s) := by
  unfold ensureExecutionOpen
  rw [exec_bind, exec_get]
  dsimp only
  split
  · exact .harmless hs rfl
  · exact .done hs trivial

theorem accounted_requestBatch (link : Link σ) (e : Nat) (start count : Int)
    (hs : s.Sound settings) :
    Accounted settings
      (fun fault => ∃ args, Unsendable settings .dqp "processCursorRequest" args fault)
      (fun handle => handle.finished = false) (exec (requestBatch link e start count) s) := by
  unfold requestBatch
  refine .bind (accounted_ensureExecutionOpen e hs).of_none fun _ t ht _ => ?_
  rw [exec_bind, exec_get]
  exact (accounted_invoke link .dqp "processCursorRequest" _ ht).imp_own fun _ h => ⟨_, h⟩

theorem accounted_requestChunk (link : Link σ) (e : Nat) (stream : UInt64)
    (reference : LobReference) (hs : s.Sound settings) :
    Accounted settings
      (fun fault => ∃ args, Unsendable settings .dqp "requestNextLobChunk" args fault)
      (fun handle => handle.finished = false) (exec (requestChunk link e stream reference) s) := by
  unfold requestChunk
  refine .bind (accounted_ensureExecutionOpen e hs).of_none fun _ t ht _ => ?_
  rw [exec_bind, exec_get]
  exact (accounted_invoke link .dqp "requestNextLobChunk" _ ht).imp_own fun _ h => ⟨_, h⟩

theorem accounted_sendRelease (link : Link σ) (e : Nat) (stream : UInt64)
    (reference : LobReference) (hs : s.Sound settings) :
    Accounted settings
      (fun fault => ∃ args, Unsendable settings .dqp "closeLobChunkStream" args fault)
      (fun _ => True) (exec (sendRelease link e stream reference) s) := by
  unfold sendRelease
  rw [exec_bind, exec_get]
  exact .bind ((accounted_call link .dqp "closeLobChunkStream" _ hs).imp_own fun _ h => ⟨_, h⟩)
    fun _ _ ht _ => .done ht trivial

theorem accounted_releaseStream (link : Link σ) (e : Nat) (stream : UInt64)
    (reference : LobReference) (hs : s.Sound settings) :
    Accounted settings
      (fun fault => ∃ args, Unsendable settings .dqp "closeLobChunkStream" args fault)
      (fun _ => True) (exec (releaseStream link e stream reference) s) := by
  unfold releaseStream
  rw [exec_bind, exec_get]
  dsimp only
  split
  · exact accounted_sendRelease link e stream reference hs
  · exact .done hs trivial

theorem accounted_openLob (e : Nat) (reference : LobReference) (hs : s.Sound settings) :
    Accounted settings (fun _ => False) (fun _ => True) (exec (openLob e reference) s) := by
  unfold openLob
  refine .bind (accounted_ensureExecutionOpen e hs) fun _ t ht _ => ?_
  exact .done ⟨ht.same, ht.calls⟩ trivial

theorem accounted_claimClosed (e : Nat) (stream : UInt64) (hs : s.Sound settings) :
    Accounted settings (fun _ => False) (fun _ => True) (exec (claimClosed e stream) s) :=
  .done ⟨hs.same, hs.calls⟩ trivial

theorem accounted_closeStreams (link : Link σ) (e : Nat) (streams : List LobStream)
    (hs : s.Sound settings) :
    Accounted settings (fun _ => False) (fun _ => True) (exec (closeStreams link e streams) s) := by
  induction streams generalizing s with
  | nil => exact .done hs trivial
  | cons opened rest ih =>
    unfold closeStreams
    refine .bind (accounted_claimClosed e opened.id hs) fun claimed t ht _ => ?_
    split
    · refine .bind (.tryCatch (accounted_sendRelease link e opened.id opened.reference ht)
        fun _ u hu _ => .done hu trivial) fun _ u hu _ => ih hu
    · exact ih ht

theorem Sound.abandonStreams (e : Nat) (streams : List LobStream) (hs : s.Sound settings) :
    (abandonStreams e streams s).Sound settings := by
  induction streams generalizing s with
  | nil => exact hs
  | cons opened rest ih => exact ih (s := s.setMarks e opened.id _) ⟨hs.same, hs.calls⟩

theorem accounted_closeExecution (link : Link σ) (e : Nat) (hs : s.Sound settings) :
    Accounted settings (fun fault => ∃ args, Unsendable settings .dqp "closeRequest" args fault)
      (fun _ => True) (exec (closeExecution link e) s) := by
  unfold closeExecution
  rw [exec_bind, exec_get]
  dsimp only
  split
  · exact .done hs trivial
  · rename_i execution hexecution
    split
    · refine .bind (Q := fun _ => True) (.done ⟨hs.same, hs.calls⟩ trivial) fun _ t ht _ => ?_
      split
      · exact .done (ht.abandonStreams e execution.unreleased) trivial
      · refine .bind (accounted_closeStreams link e execution.unreleased ht).of_none
          fun _ u hu _ => ?_
        exact .bind ((accounted_call link .dqp "closeRequest" _ hu).imp_own fun _ h => ⟨_, h⟩)
          fun _ _ hv _ => .done hv trivial
    · exact .done hs trivial

end Session

end QueryClient
