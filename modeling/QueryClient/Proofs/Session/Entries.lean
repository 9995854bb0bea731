import QueryClient.Proofs.Session.Demultiplexing
import QueryClient.Proofs.Session.History
import QueryClient.Session.Connecting

/-!
# The entries of a session

A session makes a call, waits for it and gives it up by short histories of its table, between which
whatever comes in is taken in. So the table of a session has an entry for exactly those calls that
still have something to wait for.
-/

namespace QueryClient

/-- Whether something that comes in can do this to the table. -/
def CallEvent.incoming : CallEvent → Bool
  | completed _ => true
  | failed _ _ => true
  | lost _ => true
  | _ => false

namespace Calls

variable {before calls after : Calls} {key : UInt64}

/-- Whether a table has become another one by what came in. -/
def Heard (before after : Calls) : Prop :=
  ∃ events : List CallEvent,
    (∀ event ∈ events, event.incoming = true) ∧ after = replay events before

theorem Heard.refl (calls : Calls) : Heard calls calls :=
  ⟨[], by simp, rfl⟩

theorem Heard.trans (hfirst : Heard before calls) (hsecond : Heard calls after) :
    Heard before after := by
  obtain ⟨earlier, hearlier, rfl⟩ := hfirst
  obtain ⟨later, hlater, rfl⟩ := hsecond
  refine ⟨earlier ++ later, fun event h => ?_, (replay_append earlier later before).symm⟩
  rcases List.mem_append.1 h with h | h
  · exact hearlier event h
  · exact hlater event h

/-- What comes in is for one call, or for all of them, or for both. -/
theorem heard_receive (arrival : Except Fault Message) (calls : Calls) :
    Heard calls (calls.receive arrival).2 := by
  cases arrival using arrival_cases with
  | answer reply h =>
    exact ⟨[.completed reply], by simp [CallEvent.incoming], by simp [receive, h, replay, apply]⟩
  | malformed reply fault h =>
    exact ⟨[.failed reply.key fault, .lost fault.message], by simp [CallEvent.incoming],
      by simp [receive, h, replay, apply]⟩
  | unsolicited m h => exact ⟨[], by simp, by simp [receive, replay]⟩
  | failure fault =>
    exact ⟨[.lost fault.message], by simp [CallEvent.incoming], by simp [receive, replay, apply]⟩

theorem heard_receiveAll (arrivals : List (Except Fault Message)) (calls : Calls) :
    Heard calls (receiveAll arrivals calls).2 := by
  induction arrivals generalizing calls with
  | nil => exact .refl calls
  | cons arrival rest ih =>
    cases h : ending arrival with
    | some fault =>
      rw [receiveAll_of_ending h]
      exact heard_receive arrival calls
    | none =>
      rw [receiveAll_of_goesOn h]
      exact (heard_receive arrival calls).trans (ih _)

/-- Nothing that comes in enters a call: it waits if it did and nothing has ended it. -/
theorem mem_waiting_of_incoming {events : List CallEvent}
    (h : ∀ event ∈ events, event.incoming = true) :
    key ∈ (replay events calls).waiting ↔
      key ∈ calls.waiting ∧ ∀ event ∈ events, event.ends key = false := by
  have hnone : ¬ Outstanding key events := by
    rintro ⟨before, after, rfl, _⟩
    cases h (.registered key) (by simp)
  simp [mem_waiting_replay, hnone]

end Calls

namespace Session

open Calls

variable {σ α β : Type}

/-! ## Running an operation -/

/-- The outcome of an operation on a session, and the session it leaves. -/
def exec (op : Op σ α) (s : Session σ) : Except Fault α × Session σ :=
  op.run.run s

@[simp] theorem exec_pure (a : α) (s : Session σ) : exec (pure a) s = (.ok a, s) := rfl

@[simp] theorem exec_throw (fault : Fault) (s : Session σ) :
    exec (throw fault : Op σ α) s = (.error fault, s) := rfl

@[simp] theorem exec_get (s : Session σ) : exec get s = (.ok s, s) := rfl

@[simp] theorem exec_set (s t : Session σ) : exec (set t) s = (.ok ⟨⟩, t) := rfl

@[simp] theorem exec_modify (f : Session σ → Session σ) (s : Session σ) :
    exec (modify f) s = (.ok ⟨⟩, f s) := rfl

theorem exec_bind (op : Op σ α) (f : α → Op σ β) (s : Session σ) :
    exec (op >>= f) s = match exec op s with
      | (.ok a, t) => exec (f a) t
      | (.error fault, t) => (.error fault, t) := by
  simp only [exec, ExceptT.run_bind, StateT.run_bind]
  rcases op.run.run s with ⟨_ | a, t⟩ <;> rfl

theorem exec_tryCatch (op : Op σ α) (handler : Fault → Op σ α) (s : Session σ) :
    exec (tryCatch op handler) s = match exec op s with
      | (.ok a, t) => (.ok a, t)
      | (.error fault, t) => exec (handler fault) t := by
  simp only [exec, tryCatch, tryCatchThe, MonadExceptOf.tryCatch, ExceptT.tryCatch,
    ExceptT.run, ExceptT.mk, StateT.run_bind]
  rcases StateT.run op s with ⟨_ | a, t⟩ <;> rfl

@[simp] theorem exec_ofExcept (outcome : Except Fault α) (s : Session σ) :
    exec (ofExcept outcome) s = (outcome, s) := by
  cases outcome <;> rfl

/-! ## Making a call -/

theorem exec_register (key : UInt64) (s : Session σ) :
    exec (register key) s = match s.calls.register key with
      | .ok calls => (.ok (), { s with calls := calls })
      | .error fault => (.error fault, s) := by
  rw [register, exec_bind, exec_get]
  simp only [exec_bind, exec_ofExcept]
  cases s.calls.register key <;> rfl

/-- Sending changes nothing but the link. -/
theorem calls_send (link : Link σ) (m : Message) (s : Session σ) :
    (exec (send link m) s).2.calls = s.calls := by
  rw [send, exec_bind, exec_get]
  simp only [exec_bind, exec_ofExcept]
  cases Frame.encode s.settings.encoding m with
  | error fault => rfl
  | ok frame => by_cases h : link.accepts s.link <;> simp [h]

/-- A call is not entered after the shutdown; otherwise it is entered, and it stays so if and only
if it can be sent. -/
theorem invoke_cases (link : Link σ) (service : Service) (method : String) (args : List Value)
    (s : Session σ) :
    (∃ fault t, exec (invoke link service method args) s = (.error fault, t) ∧
      t.calls = s.calls) ∨
    (∃ t, exec (invoke link service method args) s = (.ok ⟨s.lastKey + 1, method, false⟩, t) ∧
      s.calls.register (s.lastKey + 1) = .ok t.calls) ∨
    (∃ fault t entered, exec (invoke link service method args) s = (.error fault, t) ∧
      s.calls.register (s.lastKey + 1) = .ok entered ∧
      t.calls = entered.forget (s.lastKey + 1)) := by
  have hkey : exec nextKey s = (.ok (s.lastKey + 1), { s with lastKey := s.lastKey + 1 }) := rfl
  rw [invoke, exec_bind, hkey]
  simp only [exec_bind, exec_register]
  cases hregister : s.calls.register (s.lastKey + 1) with
  | error fault => exact .inl ⟨fault, _, rfl, rfl⟩
  | ok entered =>
    refine .inr ?_
    simp only [exec_tryCatch, exec_bind, exec_modify, exec_throw]
    generalize hu : ({ s with lastKey := s.lastKey + 1, calls := entered } : Session σ) = u
    have hentered : u.calls = entered := by rw [← hu]
    generalize Message.invocation ⟨s.lastKey + 1, service, method, args⟩ = m
    have hcalls := calls_send link m u
    rcases hsend : exec (send link m) u with ⟨fault | _, t⟩
    · rw [hsend, hentered] at hcalls
      refine .inr ⟨fault, _, entered, rfl, rfl, ?_⟩
      simpa [abandon] using congrArg (forget (s.lastKey + 1)) hcalls
    · rw [hsend, hentered] at hcalls
      exact .inl ⟨t, rfl, congrArg _ hcalls.symm⟩

section Invoke

variable {link : Link σ} {service : Service} {method : String} {args : List Value}
  {s t : Session σ}

theorem calls_invoke_of_ok {handle : Handle}
    (h : exec (invoke link service method args) s = (.ok handle, t)) :
    handle.key = s.lastKey + 1 ∧ t.calls = s.calls.apply (.registered handle.key) ∧
      handle.key ∈ t.calls.waiting := by
  rcases invoke_cases link service method args s with
    ⟨fault, u, heq, -⟩ | ⟨u, heq, hregister⟩ | ⟨fault, u, entered, heq, -⟩
  · simp [heq] at h
  · obtain ⟨rfl, rfl⟩ : ⟨s.lastKey + 1, method, false⟩ = handle ∧ u = t := by simpa [heq] using h
    obtain ⟨hopen, hcalls⟩ := register_eq_ok hregister
    refine ⟨rfl, hcalls.trans (apply_registered_of_open hopen _).symm, ?_⟩
    rw [hcalls]
    exact List.mem_cons_self
  · simp [heq] at h

theorem waiting_invoke_of_error {fault : Fault} (hnew : s.lastKey + 1 ∉ s.calls.waiting)
    (h : exec (invoke link service method args) s = (.error fault, t)) :
    t.calls.waiting = s.calls.waiting := by
  rcases invoke_cases link service method args s with
    ⟨cause, u, heq, hcalls⟩ | ⟨u, heq, -⟩ | ⟨cause, u, entered, heq, hregister, hcalls⟩
  · obtain ⟨rfl, rfl⟩ : cause = fault ∧ u = t := by simpa [heq] using h
    rw [hcalls]
  · simp [heq] at h
  · obtain ⟨rfl, rfl⟩ : cause = fault ∧ u = t := by simpa [heq] using h
    obtain ⟨-, rfl⟩ := register_eq_ok hregister
    rw [hcalls, forget, List.filter_cons_of_neg (by simp)]
    exact List.filter_eq_self.2 fun key hkey => bne_iff_ne.2 fun heq => hnew (heq ▸ hkey)

end Invoke

theorem calls_abandon {handle : Handle} (h : handle.finished = false) (s : Session σ) :
    (s.abandon handle).calls = s.calls.forget handle.key := by
  simp [abandon, h]

/-! ## Waiting for a call -/

theorem heard_takeIn (news : Inflow) (s : Session σ) : Heard s.calls (s.takeIn news).calls := by
  by_cases h : s.reading
  · simpa [takeIn, h] using heard_receiveAll _ s.calls
  · simpa [takeIn, h] using Heard.refl s.calls

theorem heard_listen (link : Link σ) (moment : Instant) (s : Session σ) :
    Heard s.calls (listen link moment s).calls :=
  heard_takeIn _ _

/-- How a wait for a call may end: its outcome is picked up and the call is forgotten, or the wait
times out. Until then the session has kept a property through all that came in. -/
inductive Awaited (P : Session σ → Prop) (timeout : Duration) (handle : Handle) :
    Except Fault Value × Handle × Session σ → Prop
  | answered {t : Session σ} {outcome : Except Fault Reply} (kept : P t)
      (h : t.calls.outcome? handle.key = some outcome) :
      Awaited P timeout handle (conclude outcome, { handle with finished := true },
        { t with calls := t.calls.forget handle.key })
  | timedOut {t : Session σ} (kept : P t) :
      Awaited P timeout handle (.error (.timeout handle.method timeout), handle, t)

section Awaited

variable {P : Session σ → Prop} {link : Link σ}
  (hlisten : ∀ t, P t → ∀ moment, P (listen link moment t))
include hlisten

theorem awaited_waitUntil (timeout : Duration) (deadline : Instant) (looks : Nat)
    (handle : Handle) {s : Session σ} (h : P s) :
    Awaited P timeout handle (waitUntil link timeout deadline looks handle s) := by
  induction looks generalizing s with
  | zero => exact .timedOut h
  | succ looks ih =>
    rw [waitUntil]
    cases houtcome : s.calls.outcome? handle.key with
    | some outcome => exact .answered h houtcome
    | none =>
      by_cases hdeadline : deadline ≤ link.now s.link
      · simp only [hdeadline, if_true]
        exact .timedOut h
      · simp only [hdeadline, if_false]
        exact ih (hlisten s h _)

theorem awaited_wait (timeout : Duration) {handle : Handle} (hopen : handle.finished = false)
    {s : Session σ} (h : P s) : Awaited P timeout handle (s.wait link timeout handle) := by
  rw [wait, if_neg (by simp [hopen])]
  by_cases hzero : timeout.isZero
  · rw [if_pos hzero]
    exact .timedOut h
  · rw [if_neg hzero]
    exact awaited_waitUntil hlisten timeout _ _ handle h

end Awaited

/-- Nothing but what comes in changes the table while a call is waited for. -/
theorem waited_wait (link : Link σ) (timeout : Duration) {handle : Handle}
    (h : handle.finished = false) (s : Session σ) :
    Awaited (fun t => Heard s.calls t.calls) timeout handle (s.wait link timeout handle) :=
  awaited_wait (fun t heard moment => heard.trans (heard_listen link moment t)) timeout h
    (.refl s.calls)

/-! ## The table and the session around it -/

/-- The history of a table with fresh keys says all about it, whatever is done to it in whichever
order. And an entry is there for as long as there is something to wait for: a call that cannot be
sent leaves none, nor does a handle that is given up or whose outcome has been picked up, while a
handle that has timed out keeps its own, unless what came in has ended it. -/
theorem balanced_entries {events : List CallEvent} (hfresh : (registrations events).Nodup) :
    Balanced events (replay events .empty) ∧
    ∀ (σ : Type) (link : Link σ) (s : Session σ), s.calls = replay events .empty →
      (∀ service method args, .registered (s.lastKey + 1) ∉ events →
        (∀ handle t, exec (invoke link service method args) s = (.ok handle, t) →
          handle.key = s.lastKey + 1 ∧
            t.calls = replay (events ++ [.registered handle.key]) .empty ∧
            handle.key ∈ t.calls.waiting) ∧
        (∀ fault t, exec (invoke link service method args) s = (.error fault, t) →
          t.calls.waiting = s.calls.waiting)) ∧
      (∀ handle, handle.finished = false →
        (s.abandon handle).calls = replay (events ++ [.dropped handle.key]) .empty ∧
          handle.key ∉ (s.abandon handle).calls.waiting) ∧
      (∀ timeout handle outcome after t, handle.finished = false →
        s.wait link timeout handle = (outcome, after, t) →
        (after.finished = true → handle.key ∉ t.calls.waiting) ∧
        (after.finished = false →
          outcome = .error (.timeout handle.method timeout) ∧ after = handle ∧
          ∃ more : List CallEvent, (∀ event ∈ more, event.incoming = true) ∧
            t.calls = replay (events ++ more) .empty ∧
            (handle.key ∈ t.calls.waiting ↔
              handle.key ∈ s.calls.waiting ∧ ∀ event ∈ more, event.ends handle.key = false))) := by
  refine ⟨balanced_replay hfresh, fun σ link s hs => ⟨?_, ?_, ?_⟩⟩
  · intro service method args hnew
    have hout : s.lastKey + 1 ∉ s.calls.waiting := by
      rw [hs, mem_waiting_iff_outstanding]
      rintro ⟨before, after, rfl, -⟩
      exact hnew (by simp)
    refine ⟨fun handle t h => ?_, fun fault t h => waiting_invoke_of_error hout h⟩
    obtain ⟨hkey, hcalls, hwaits⟩ := calls_invoke_of_ok h
    refine ⟨hkey, ?_, hwaits⟩
    rw [hcalls, hs, replay_append]
    rfl
  · intro handle hhandle
    refine ⟨?_, ?_⟩
    · rw [calls_abandon hhandle, hs, replay_append]
      rfl
    · simp [calls_abandon hhandle]
  · intro timeout handle outcome after t hhandle hwait
    have hwaited := waited_wait link timeout hhandle s
    rw [hwait] at hwaited
    cases hwaited with
    | answered heard houtcome => exact ⟨fun _ => by simp, fun hunfinished => nomatch hunfinished⟩
    | timedOut heard =>
      refine ⟨fun hfinished => ?_, fun _ => ?_⟩
      · rw [hhandle] at hfinished
        cases hfinished
      · obtain ⟨more, hmore, hcalls⟩ := heard
        refine ⟨rfl, rfl, more, hmore, ?_, ?_⟩
        · rw [hcalls, hs, replay_append]
        · rw [hcalls]
          exact mem_waiting_of_incoming hmore

/-- A link that takes nothing and gives nothing. -/
def deafLink : Link Unit where
  now _ := 0
  accepts _ := false
  send _ state := state
  await _ state := (⟨[], .quiet⟩, state)
  shutDown := id

/-- Two calls are made, and the second is answered. -/
def shortHistory : List CallEvent :=
  [.registered 1, .registered 2, .completed (nullReply 2)]

/-- A session whose first call waits. -/
def waitingSession : Session Unit :=
  { start Settings.standard Handshake.client () with
    calls := replay shortHistory .empty
    lastKey := 2 }

/-- The first call times out and waits on; the third cannot be sent. -/
theorem balanced_entries_waitingSession :
    waitingSession.calls.complete (nullReply 2) = (false, waitingSession.calls) ∧
    (∃ t, exec (invoke deafLink .logon "ping" []) waitingSession = (.error .sessionClosed, t) ∧
      t.calls.waiting = waitingSession.calls.waiting) ∧
    1 ∉ (waitingSession.abandon ⟨1, "ping", false⟩).calls.waiting ∧
    ∃ t, waitingSession.wait deafLink (.seconds 0) ⟨1, "ping", false⟩ =
        (.error (.timeout "ping" (.seconds 0)), ⟨1, "ping", false⟩, t) ∧
      ∃ more : List CallEvent, t.calls = replay (shortHistory ++ more) .empty := by
  obtain ⟨hbalanced, hsession⟩ := @balanced_entries shortHistory (by decide)
  obtain ⟨hinvoke, habandon, hwait⟩ := hsession Unit deafLink waitingSession rfl
  have hnew : CallEvent.registered (waitingSession.lastKey + 1) ∉ shortHistory := by
    simp [shortHistory, waitingSession]
  have hnobody : (waitingSession.calls.complete (nullReply 2)).1 = false := by decide
  refine ⟨Prod.ext hnobody (hbalanced.complete_of_nobody _ hnobody), ?_,
    (habandon ⟨1, "ping", false⟩ rfl).2, ?_⟩
  · exact ⟨_, rfl, (hinvoke .logon "ping" [] hnew).2 _ _ rfl⟩
  · obtain ⟨-, hkept⟩ := hwait (.seconds 0) ⟨1, "ping", false⟩ _ _ _ rfl rfl
    obtain ⟨-, -, more, -, hmore, -⟩ := hkept rfl
    exact ⟨_, rfl, more, hmore⟩

end Session

end QueryClient
